import LakehousePipeline.Streaming.UnifiedSilver

/-!
# The queue drains

A Gold cycle completes what it has scanned, at most one row more than the limit on order ids, and
takes none back. So as long as nothing is enqueued, each completion brings the number of pending
rows down by that many or to none, whatever else happens in between: crashes, batch runs,
maintenance (`pendingCount_of_run`). Where Silver is ready and Gold can be built, a cycle runs
through, and the cycles after it find Gold up to date; so a number of cycles that is known before
the first of them publishes every request (`queueDrains`). One cycle alone, as at the end of an
available-now run, publishes a backlog only up to the limit.

## Counting

The measure is `pendingCount`, and what makes it exact is the invariant `Drains`: keys in the queue
are distinct, as every write to it is a merge by key, and a cycle that has scanned holds exactly as
many pending rows as there were, up to the limit and one more. A cycle keeps its scan while others
act, so the second half has to survive their actions: no action but a completion takes a row out of
`pending`, and completions are the cycle's own, as it holds the lock. `QueueStep` says once what an
action does to the queue; the count follows for each of its four cases, and for runs by induction.

## Progress

`reconcilePendingGoldIfReady` is the function of the source with the lock free, and
`exists_run_of_reconcile` shows that it is a run of the system's actions, so that invariants of runs
apply to it. It publishes if two things hold, and both are preserved by its own success:

* `ScopesReady`: whatever subset of the pending rows is read, its scope is ready. A cycle leaves
  Silver alone and only removes pending rows, so what is ready stays ready.
* `Builds`: a Gold run ends as published. After one that did, the active release has the versions
  of Silver, and any further run returns `upToDate` without reading (`runGold_of_current`).

Hence the assumption on building is about the first cycle only, and `reconcileCycles_spec` is an
induction on the cycles that carries the rest along.
-/

namespace LakehousePipeline

/-! ### Merges into the queue -/

section Queue

variable {queue df : List QueueRow} {keys : List (BatchKey × ScopeKey)}

/-- A row of the source decides, then the target. -/
theorem mergeKey_queue (held source : Option QueueRow) :
    (upsertMerge (keyedColumns QueueRow.key) queueOptions).mergeKey held (source.map Change.row) =
      source.or held := by
  cases source with
  | none => cases held <;> rfl
  | some row =>
    cases held with
    | none => rfl
    | some old =>
      show (upsertMerge _ _).applyMatched old (.row row) = some row
      rw [applyMatched_row]
      rcases eq_or_ne old row with rfl | hne
      · simp [queueOptions, UpsertOptions.default, keyedColumns, isNewer, isWritten]
      · simp [queueOptions, UpsertOptions.default, keyedColumns, isNewer, isWritten, hne]

/-- **A merge into the queue** succeeds, and a key then holds its source row if it has one. -/
theorem upsertQueue_spec (hqueue : (queue.map QueueRow.key).Nodup)
    (hdf : (df.map QueueRow.key).Nodup) :
    ∃ result, upsertTable (keyedColumns QueueRow.key) queueOptions (some queue) df = some result ∧
      (result.rows.map QueueRow.key).Nodup ∧
      ∀ k, MergeInto.lookup QueueRow.key k result.rows =
        (MergeInto.lookup QueueRow.key k df).or (MergeInto.lookup QueueRow.key k queue) := by
  have hsource := nodup_key_upsertChanges (keyedColumns QueueRow.key) queueOptions hdf
    fun _ _ ↦ List.not_mem_nil
  obtain ⟨rows, hexec, hnodup, hlookup⟩ := MergeInto.execute_spec
    (keyed_upsertMerge (keyedColumns QueueRow.key) queueOptions) hqueue hsource
  refine ⟨⟨rows, true⟩, ?_, hnodup, fun k ↦ (hlookup k).trans ?_⟩
  · rw [upsertTable, if_neg (by simp [queueOptions]), hexec]
    rfl
  · have hdelete : queueOptions.deleteKeys.getD [] = [] := rfl
    rw [lookup_upsertChanges, keyedColumns_key, hdelete, if_neg List.not_mem_nil, Option.or_none,
      mergeKey_queue]

/-- The scopes of a request are distinct. -/
theorem nodup_requestRows (requestId : BatchKey) (affectedOrderIds : Option (List ℤ))
    (requiresFactReadiness : Bool) :
    ((requestRows requestId affectedOrderIds requiresFactReadiness).map QueueRow.key).Nodup := by
  have hscopes : ((scopes affectedOrderIds).map Prod.fst).Nodup := by
    rcases affectedOrderIds with - | (- | ⟨orderId, orderIds⟩)
    · exact List.nodup_singleton _
    · exact List.nodup_singleton _
    · show ((if _ then _ else _ : List (ScopeKey × Option ℤ)).map Prod.fst).Nodup
      split
      · exact List.nodup_singleton _
      · rw [List.map_map]
        exact (List.nodup_dedup _).map fun a b heq ↦ ScopeKey.order.inj heq
  rw [requestRows, List.map_map]
  have hkeys : (QueueRow.key ∘ fun scope : ScopeKey × Option ℤ ↦
      (⟨requestId, scope.1, scope.2, requiresFactReadiness, .pending⟩ : QueueRow)) =
        (fun scopeKey ↦ (requestId, scopeKey)) ∘ Prod.fst := rfl
  rw [hkeys, ← List.map_map]
  exact hscopes.map fun a b heq ↦ (Prod.mk.inj heq).2

/-- **`enqueue` keeps the keys of the queue distinct.** -/
theorem nodup_enqueue {old : Option (List QueueRow)} {queue' : List QueueRow} {requestId : BatchKey}
    {affectedOrderIds : Option (List ℤ)} {requiresFactReadiness : Bool}
    (hold : ((old.getD []).map QueueRow.key).Nodup)
    (h : enqueue old requestId affectedOrderIds requiresFactReadiness = some queue') :
    (queue'.map QueueRow.key).Nodup := by
  obtain ⟨result, hresult, rfl⟩ := Option.map_eq_some_iff.1 h
  have hrows := nodup_requestRows requestId affectedOrderIds requiresFactReadiness
  rcases old with - | queue
  · obtain rfl := Option.some.inj hresult
    exact hrows
  · obtain ⟨result', hresult', hnodup, -⟩ := upsertQueue_spec hold hrows
    obtain rfl := Option.some.inj (hresult.symm.trans hresult')
    exact hnodup

/-- A row of the queue after a completion. -/
def QueueRow.completed (keys : List (BatchKey × ScopeKey)) (row : QueueRow) : QueueRow :=
  if row.key ∈ keys then { row with status := .published } else row

/-- A completion changes the status, not the key. -/
@[simp] theorem QueueRow.key_completed (keys : List (BatchKey × ScopeKey)) (row : QueueRow) :
    (row.completed keys).key = row.key := by
  rw [QueueRow.completed]
  split <;> rfl

/-- The rows of a key, one at most. -/
theorem filter_key_eq (hqueue : (queue.map QueueRow.key).Nodup) (k : BatchKey × ScopeKey) :
    (queue.filter fun row ↦ row.key = k) = (MergeInto.lookup QueueRow.key k queue).toList := by
  cases hlookup : MergeInto.lookup QueueRow.key k queue with
  | none =>
    refine List.filter_eq_nil_iff.2 fun row hrow ↦ ?_
    simpa using MergeInto.lookup_eq_none.1 hlookup row hrow
  | some found =>
    refine List.perm_singleton.1 ((List.perm_ext_iff_of_nodup (hqueue.of_map.filter _)
      (List.nodup_singleton _)).2 fun row ↦ ?_)
    rw [List.mem_filter, decide_eq_true_eq, ← MergeInto.lookup_eq_some_iff hqueue, hlookup,
      List.mem_singleton, Option.some_inj, eq_comm]

/-- The completed rows, key by key. -/
theorem completedRows_eq (hqueue : (queue.map QueueRow.key).Nodup)
    (keys : List (BatchKey × ScopeKey)) : completedRows queue keys =
      keys.filterMap fun k ↦ (MergeInto.lookup QueueRow.key k queue).map fun row ↦
        { row with status := .published } := by
  induction keys with
  | nil => rfl
  | cons k keys ih =>
    rw [completedRows, List.flatMap_cons, filter_key_eq hqueue, List.filterMap_cons, ← ih]
    cases MergeInto.lookup QueueRow.key k queue <;> rfl

/-- Completing rows leaves the keys of a queue. -/
theorem map_key_completed (keys : List (BatchKey × ScopeKey)) (queue : List QueueRow) :
    (queue.map (QueueRow.completed keys)).map QueueRow.key = queue.map QueueRow.key := by
  rw [List.map_map]
  exact List.map_congr_left fun row _ ↦ row.key_completed keys

/-- A lookup in the completed queue is the completed row. -/
theorem lookup_map_completed (keys : List (BatchKey × ScopeKey)) (queue : List QueueRow)
    (k : BatchKey × ScopeKey) :
    MergeInto.lookup QueueRow.key k (queue.map (QueueRow.completed keys)) =
      (MergeInto.lookup QueueRow.key k queue).map (QueueRow.completed keys) := by
  rw [MergeInto.lookup, List.find?_map, MergeInto.lookup]
  refine congrArg (Option.map _) (congrArg (List.find? · queue) (funext fun row ↦ ?_))
  exact congrArg (fun key ↦ decide (key = k)) (row.key_completed keys)

/-- **What `complete` does**: it publishes the rows of the keys. -/
theorem complete_spec (hqueue : (queue.map QueueRow.key).Nodup) (hkeys : keys.Nodup) :
    ∃ queue', complete queue keys = some queue' ∧
      queue'.Perm (queue.map (QueueRow.completed keys)) := by
  rw [complete]
  split
  · rename_i hnil
    refine ⟨queue, rfl, List.Perm.of_eq ?_⟩
    rw [hnil]
    exact (List.map_id' queue).symm
  · have hkey : ∀ k ∈ keys, ∀ row : QueueRow,
        ((MergeInto.lookup QueueRow.key k queue).map fun row ↦
          ({ row with status := .published } : QueueRow)) = some row → row.key = id k := by
      intro k _ row hrow
      obtain ⟨old, hold, rfl⟩ := Option.map_eq_some_iff.1 hrow
      exact (MergeInto.mem_of_lookup hold).2
    have hdistinct : (keys.map id).Nodup := by rwa [List.map_id]
    obtain ⟨result, hresult, hnodup, hlookup⟩ := upsertQueue_spec hqueue
      (completedRows_eq hqueue keys ▸ MergeInto.nodup_map_filterMap hdistinct hkey)
    refine ⟨result.rows, by rw [hresult]; rfl,
      MergeInto.perm_of_lookup_eq hnodup (map_key_completed keys queue ▸ hqueue) fun k ↦ ?_⟩
    rw [hlookup, completedRows_eq hqueue, MergeInto.lookup_filterMap hdistinct hkey,
      lookup_map_completed]
    -- a key without a row is not inserted, one that was not completed stays
    cases hrow : MergeInto.lookup QueueRow.key k queue with
    | none =>
      cases hk : MergeInto.lookup id k keys with
      | none => rfl
      | some found =>
        obtain rfl : found = k := (MergeInto.mem_of_lookup hk).2
        rw [Option.bind_some, hrow]
        rfl
    | some row =>
      obtain rfl : row.key = k := (MergeInto.mem_of_lookup hrow).2
      by_cases hk : row.key ∈ keys
      · have hfound : MergeInto.lookup id row.key keys = some row.key :=
          (MergeInto.lookup_eq_some_iff hdistinct).2 ⟨hk, rfl⟩
        rw [hfound, Option.bind_some, hrow, Option.map_some, Option.map_some, QueueRow.completed,
          if_pos hk]
        rfl
      · have hnone : MergeInto.lookup id row.key keys = none :=
          MergeInto.lookup_eq_none.2 fun found hfound heq ↦ hk (heq ▸ hfound)
        rw [hnone, Option.map_some, QueueRow.completed, if_neg hk]
        rfl

/-- The keys of the rows that are pending. -/
def pendingKeys (queue : List QueueRow) : List (BatchKey × ScopeKey) :=
  (pendingRows (some queue)).map QueueRow.key

/-- Pending keys are distinct if all keys are. -/
theorem nodup_pendingKeys (hqueue : (queue.map QueueRow.key).Nodup) : (pendingKeys queue).Nodup :=
  hqueue.sublist (List.filter_sublist.map _)

/-- **`complete` keeps the keys of the queue distinct.** -/
theorem nodup_complete (hqueue : (queue.map QueueRow.key).Nodup) (hkeys : keys.Nodup)
    {queue' : List QueueRow} (h : complete queue keys = some queue') :
    (queue'.map QueueRow.key).Nodup := by
  obtain ⟨after, hafter, hperm⟩ := complete_spec hqueue hkeys
  obtain rfl := Option.some.inj (h.symm.trans hafter)
  exact (hperm.map _).nodup_iff.2 (map_key_completed keys queue ▸ hqueue)

/-- A completion leaves the pending rows it does not publish. -/
theorem perm_pendingKeys_complete (hqueue : (queue.map QueueRow.key).Nodup) (hkeys : keys.Nodup)
    {queue' : List QueueRow} (h : complete queue keys = some queue') :
    (pendingKeys queue').Perm ((pendingKeys queue).filter fun k ↦ k ∉ keys) := by
  obtain ⟨after, hafter, hperm⟩ := complete_spec hqueue hkeys
  obtain rfl := Option.some.inj (h.symm.trans hafter)
  refine ((hperm.filter _).map _).trans (List.Perm.of_eq ?_)
  have hkey : QueueRow.key ∘ QueueRow.completed keys = QueueRow.key :=
    funext fun row ↦ row.key_completed keys
  rw [pendingKeys, pendingRows, Option.getD_some, List.filter_map, List.map_map, List.filter_map,
    List.filter_filter, hkey]
  refine congrArg _ (List.filter_congr fun row _ ↦ ?_)
  show decide ((row.completed keys).status = .pending) =
    (decide (row.key ∉ keys) && decide (row.status = .pending))
  rw [QueueRow.completed]
  by_cases hk : row.key ∈ keys
  · simp [hk]
  · simp [hk]

/-- **A completion of pending rows** takes as many away. -/
theorem length_pendingKeys_complete (hqueue : (queue.map QueueRow.key).Nodup)
    (hkeys : keys.Nodup) (hpending : keys ⊆ pendingKeys queue) {queue' : List QueueRow}
    (h : complete queue keys = some queue') :
    (pendingKeys queue').length = (pendingKeys queue).length - keys.length := by
  have hsplit : ((pendingKeys queue).filter fun k ↦ k ∈ keys).Perm keys :=
    (List.perm_ext_iff_of_nodup ((nodup_pendingKeys hqueue).filter _) hkeys).2 fun k ↦ by
      rw [List.mem_filter, decide_eq_true_eq]
      exact ⟨fun hk ↦ hk.2, fun hk ↦ ⟨hpending hk, hk⟩⟩
  have hlength := List.length_eq_length_filter_add (l := pendingKeys queue) fun k ↦ k ∈ keys
  have hnot : ((pendingKeys queue).filter fun k ↦ !decide (k ∈ keys)).length =
      ((pendingKeys queue).filter fun k ↦ k ∉ keys).length := by
    simp
  rw [hsplit.length_eq] at hlength
  rw [(perm_pendingKeys_complete hqueue hkeys h).length_eq]
  omega

/-- A completion makes no row pending. -/
theorem pendingRows_complete_subset (hqueue : (queue.map QueueRow.key).Nodup)
    (hkeys : keys.Nodup) {queue' : List QueueRow} (h : complete queue keys = some queue') :
    pendingRows (some queue') ⊆ pendingRows (some queue) := by
  obtain ⟨after, hafter, hperm⟩ := complete_spec hqueue hkeys
  obtain rfl := Option.some.inj (h.symm.trans hafter)
  intro row hrow
  obtain ⟨hmem, hstatus⟩ := List.mem_filter.1 hrow
  obtain ⟨old, hold, rfl⟩ := List.mem_map.1 (hperm.subset hmem)
  rw [QueueRow.completed] at hstatus ⊢
  split at hstatus
  · cases of_decide_eq_true hstatus
  · rename_i hk
    rw [if_neg hk]
    exact List.mem_filter.2 ⟨hold, hstatus⟩

/-- The scope of pending rows that the limited read has collected. -/
theorem exists_pendingScope (maxOrderIds : ℕ) {rows : List QueueRow}
    (hqueue : (queue.map QueueRow.key).Nodup) (hrows : rows.Perm (pendingRows (some queue)))
    (hpending : pendingKeys queue ≠ []) :
    ∃ pending, pendingScope maxOrderIds (rows.take (maxOrderIds + 1)) = some pending ∧
      pending.keys.Nodup ∧ rows.take (maxOrderIds + 1) ⊆ pendingRows (some queue) := by
  have hne : rows.take (maxOrderIds + 1) ≠ [] := by
    rw [ne_eq, List.take_eq_nil_iff, not_or]
    refine ⟨Nat.succ_ne_zero _, fun hnil ↦ hpending ?_⟩
    have hnone : pendingRows (some queue) = [] := (hnil ▸ hrows).symm.eq_nil
    rw [pendingKeys, hnone, List.map_nil]
  refine ⟨_, if_neg hne, ?_, fun row hrow ↦ hrows.subset (List.take_subset _ _ hrow)⟩
  exact ((hrows.map QueueRow.key).nodup_iff.2 (nodup_pendingKeys hqueue)).sublist
    ((List.take_sublist _ _).map _)

end Queue

/-! ### What an action does to the queue -/

/-- An enqueue. -/
def UnifiedAction.isEnqueue {W : Type} : UnifiedAction W → Bool
  | .enqueue _ => true
  | _ => false

/-- A completion. -/
def UnifiedAction.isComplete {W : Type} : UnifiedAction W → Bool
  | .complete => true
  | _ => false

namespace UnifiedLakehouse

variable {W : Type} [DecidableEq W]

/-- The keys a Gold cycle has scanned. -/
def scannedKeys : Option LockHolder → Option (List (BatchKey × ScopeKey))
  | some (.cycle (.ready pending)) => some pending.keys
  | some (.cycle (.built keys)) => some keys
  | some (.cycle .started) | some (.microBatch _ _ _) | some .batch | none => none

/-- The number of rows that are pending. -/
def pendingCount (world : UnifiedLakehouse W) : ℕ :=
  (pendingKeys world.queueRows).length

/-- **What an action does to the queue.** -/
inductive QueueStep (maxOrderIds : ℕ) (world world' : UnifiedLakehouse W) : UnifiedAction W → Prop
  /-- Nothing; and the holder of the lock has scanned nothing new. -/
  | keep {action : UnifiedAction W} (hcomplete : action.isComplete = false)
    (hqueue : world'.queue = world.queue)
    (hkeys : ∀ keys, scannedKeys world'.holder = some keys → scannedKeys world.holder = some keys) :
    QueueStep maxOrderIds world world' action
  /-- It scans pending rows. -/
  | scan {rows : List QueueRow} (hrows : rows.Perm (pendingRows world.queue))
    (hqueue : world'.queue = world.queue)
    (hkeys : ∀ keys, scannedKeys world'.holder = some keys →
      keys = (rows.take (maxOrderIds + 1)).map QueueRow.key) :
    QueueStep maxOrderIds world world' (.scan rows)
  /-- It adds a request. -/
  | enqueue {orderIds : SilverTable → List (Option ℤ)} {requestId : BatchKey}
    {affectedOrderIds : Option (List ℤ)} {requiresFactReadiness : Bool} {queue : List QueueRow}
    (hqueue : LakehousePipeline.enqueue world.queue requestId affectedOrderIds
      requiresFactReadiness = some queue)
    (hafter : world'.queue = some queue) (hkeys : scannedKeys world'.holder = none) :
    QueueStep maxOrderIds world world' (.enqueue orderIds)
  /-- It completes what has been scanned. -/
  | complete {keys : List (BatchKey × ScopeKey)} {queue : List QueueRow}
    (hscanned : scannedKeys world.holder = some keys)
    (hqueue : LakehousePipeline.complete world.queueRows keys = some queue)
    (hafter : world'.queue = some queue) (hkeys : world'.holder = none) :
    QueueStep maxOrderIds world world' .complete

section Step

variable {fns : SparkFunctions} {hash : BusinessHash} {maxOrderIds : ℕ}
  {tables : BatchKey → List SilverTable} {world world' : UnifiedLakehouse W}

/-- The keys of a scan. -/
theorem keys_of_pendingScope {rows : List QueueRow} {pending : PendingGoldScope}
    (h : pendingScope maxOrderIds rows = some pending) : pending.keys = rows.map QueueRow.key := by
  obtain ⟨-, h⟩ := Option.ite_none_left_eq_some.1 h
  rw [← Option.some.inj h]

/-- **Every action is one of these.** -/
theorem queueStep_of_step {action : UnifiedAction W}
    (h : world.step fns hash maxOrderIds tables action = some world') :
    QueueStep maxOrderIds world world' action := by
  cases action with
  | beginMicroBatch requestId =>
    obtain ⟨-, h⟩ := Option.ite_none_right_eq_some.1 h
    obtain rfl := Option.some.inj h
    exact .keep rfl rfl fun _ hkeys ↦ by cases hkeys
  | appendHistory t rows =>
    rw [UnifiedLakehouse.step] at h
    split at h
    · obtain ⟨-, h⟩ := Option.ite_none_right_eq_some.1 h
      obtain ⟨after, -, rfl⟩ := Option.map_eq_some_iff.1 h
      exact .keep rfl rfl fun _ hkeys ↦ hkeys
    · cases h
  | mergeTable t c =>
    rw [UnifiedLakehouse.step] at h
    split at h
    · obtain ⟨-, h⟩ := Option.ite_none_right_eq_some.1 h
      split at h
      · obtain rfl := Option.some.inj h
        exact .keep rfl rfl fun _ hkeys ↦ by cases hkeys
      · obtain ⟨after, -, rfl⟩ := Option.map_eq_some_iff.1 h
        exact .keep rfl rfl fun _ hkeys ↦ by cases hkeys
    · cases h
  | enqueue orderIds =>
    rw [UnifiedLakehouse.step] at h
    split at h
    · obtain ⟨-, h⟩ := Option.ite_none_right_eq_some.1 h
      obtain ⟨queue, hqueue, rfl⟩ := Option.map_eq_some_iff.1 h
      exact .enqueue hqueue rfl rfl
    · cases h
  | returnBatch =>
    rw [UnifiedLakehouse.step] at h
    split at h
    · obtain rfl := Option.some.inj h
      exact .keep rfl rfl fun _ hkeys ↦ by cases hkeys
    · cases h
  | beginCycle =>
    obtain ⟨-, h⟩ := Option.ite_none_right_eq_some.1 h
    obtain rfl := Option.some.inj h
    exact .keep rfl rfl fun _ hkeys ↦ by cases hkeys
  | scan rows =>
    rw [UnifiedLakehouse.step] at h
    split at h
    · obtain ⟨hrows, h⟩ := Option.ite_none_right_eq_some.1 h
      obtain rfl := Option.some.inj h
      refine .scan hrows rfl fun keys hkeys ↦ ?_
      -- an orders scope that is not ready leaves nothing in hand
      cases hpending : (pendingScope maxOrderIds (rows.take (maxOrderIds + 1))).filter
        world.ready with
      | none =>
        simp only [hpending, Option.map_none] at hkeys
        cases hkeys
      | some pending =>
        simp only [hpending, Option.map_some] at hkeys
        obtain rfl : pending.keys = keys := Option.some.inj hkeys
        exact keys_of_pendingScope (Option.filter_eq_some_iff.1 hpending).1
    · cases h
  | reconcile stage =>
    rw [UnifiedLakehouse.step] at h
    split at h
    · rename_i pending hw
      obtain ⟨run, -, h⟩ := Option.bind_eq_some_iff.1 h
      obtain ⟨after, -, rfl⟩ := Option.map_eq_some_iff.1 h
      refine .keep rfl rfl fun keys hkeys ↦ ?_
      rw [hw]
      -- the keys stay in hand only after a run that succeeded
      dsimp only at hkeys
      split at hkeys
      · exact hkeys
      · cases hkeys
    · cases h
  | complete =>
    rw [UnifiedLakehouse.step] at h
    split at h
    · rename_i keys hw
      obtain ⟨queue, hqueue, rfl⟩ := Option.map_eq_some_iff.1 h
      exact .complete (by rw [hw]; rfl) hqueue rfl rfl
    · cases h
  | beginBatch =>
    obtain ⟨-, h⟩ := Option.ite_none_right_eq_some.1 h
    obtain rfl := Option.some.inj h
    exact .keep rfl rfl fun _ hkeys ↦ by cases hkeys
  | batch action =>
    rw [UnifiedLakehouse.step] at h
    split at h
    · obtain ⟨after, -, rfl⟩ := Option.map_eq_some_iff.1 h
      exact .keep rfl rfl fun _ hkeys ↦ hkeys
    · cases h
  | endBatch =>
    rw [UnifiedLakehouse.step] at h
    split at h
    · obtain rfl := Option.some.inj h
      exact .keep rfl rfl fun _ hkeys ↦ by cases hkeys
    · cases h
  | maintain t c =>
    obtain ⟨-, h⟩ := Option.ite_none_right_eq_some.1 h
    obtain ⟨after, -, rfl⟩ := Option.map_eq_some_iff.1 h
    exact .keep rfl rfl fun _ hkeys ↦ hkeys
  | crash =>
    obtain rfl := Option.some.inj h
    exact .keep rfl rfl fun _ hkeys ↦ by cases hkeys

/-- What keeps the count of the pending rows exact: the keys are distinct, and a cycle has scanned
as many pending rows as there are, up to one more than the limit. -/
structure Drains (maxOrderIds : ℕ) (world : UnifiedLakehouse W) : Prop where
  nodup : (world.queueRows.map QueueRow.key).Nodup
  scanned : ∀ keys, scannedKeys world.holder = some keys →
    keys.Nodup ∧ keys ⊆ pendingKeys world.queueRows ∧
      keys.length = min (maxOrderIds + 1) world.pendingCount

omit [DecidableEq W] in
/-- The empty lakehouse has no queue and no lock holder. -/
theorem drains_empty : (empty : UnifiedLakehouse W).Drains maxOrderIds :=
  ⟨List.nodup_nil, fun _ h ↦ by cases h⟩

omit [DecidableEq W] in
/-- What leaves the queue leaves the count. -/
theorem queue_congr (h : world'.queue = world.queue) :
    world'.queueRows = world.queueRows ∧ world'.pendingCount = world.pendingCount := by
  have hrows : world'.queueRows = world.queueRows := by rw [queueRows, h, queueRows]
  exact ⟨hrows, by rw [pendingCount, hrows, pendingCount]⟩

/-- **One action keeps the count exact**, and if it enqueues nothing, only a completion changes the
number of pending rows. -/
theorem Drains.step (h : world.Drains maxOrderIds) {action : UnifiedAction W}
    (hstep : world.step fns hash maxOrderIds tables action = some world') :
    world'.Drains maxOrderIds ∧ (action.isEnqueue = false →
      world'.pendingCount =
        world.pendingCount - (if action.isComplete then maxOrderIds + 1 else 0)) := by
  cases queueStep_of_step hstep with
  | keep hcomplete hqueue hkeys =>
    obtain ⟨hrows, hcount⟩ := queue_congr hqueue
    refine ⟨⟨hrows ▸ h.nodup, fun keys hscanned ↦ ?_⟩, fun _ ↦ ?_⟩
    · rw [hrows, hcount]
      exact h.scanned keys (hkeys keys hscanned)
    · rw [hcomplete, hcount]
      rfl
  | @scan rows hperm hqueue hkeys =>
    obtain ⟨hrows, hcount⟩ := queue_congr hqueue
    refine ⟨⟨hrows ▸ h.nodup, fun keys hscanned ↦ ?_⟩, fun _ ↦ hcount⟩
    rw [hrows, hcount, hkeys keys hscanned]
    have hpending : (rows.map QueueRow.key).Perm (pendingKeys world.queueRows) := hperm.map _
    have hsub : ((rows.take (maxOrderIds + 1)).map QueueRow.key).Sublist
        (rows.map QueueRow.key) := (List.take_sublist _ _).map _
    refine ⟨((hpending.nodup_iff.2 (nodup_pendingKeys h.nodup)).sublist hsub),
      fun k hk ↦ hpending.subset (hsub.subset hk), ?_⟩
    rw [List.length_map, List.length_take, pendingCount, ← hpending.length_eq, List.length_map]
  | enqueue hqueue hafter hkeys =>
    refine ⟨⟨?_, fun keys hscanned ↦ ?_⟩, fun he ↦ by cases he⟩
    · rw [queueRows, hafter]
      exact nodup_enqueue h.nodup hqueue
    · cases hkeys.symm.trans hscanned
  | complete hscanned hqueue hafter hkeys =>
    obtain ⟨hnodup, hsub, hlength⟩ := h.scanned _ hscanned
    have hcount := length_pendingKeys_complete h.nodup hnodup hsub hqueue
    have hrows : world'.queueRows = _ := congrArg (Option.getD · []) hafter
    refine ⟨⟨hrows ▸ nodup_complete h.nodup hnodup hqueue, fun keys hscanned' ↦ ?_⟩, fun _ ↦ ?_⟩
    · rw [hkeys] at hscanned'
      cases hscanned'
    · rw [pendingCount, hrows]
      refine hcount.trans ?_
      rw [hlength, ← pendingCount]
      show world.pendingCount - min (maxOrderIds + 1) world.pendingCount =
        world.pendingCount - (maxOrderIds + 1)
      omega

/-- The invariant along a run from any lakehouse that has it. -/
theorem drains_of_run {actions : List (UnifiedAction W)} (h : world.Drains maxOrderIds)
    (hrun : Runs.run (fun w a ↦ UnifiedLakehouse.step fns hash maxOrderIds tables w a)
      world actions = some world') : world'.Drains maxOrderIds :=
  Runs.run_invariant_of_step (Drains maxOrderIds) (fun _ _ _ hw hstep ↦ (hw.step hstep).1) h hrun

/-- **The count along a run** that enqueues nothing: each completion takes one more than the limit,
whatever happens in between. -/
theorem pendingCount_of_run {actions : List (UnifiedAction W)} (h : world.Drains maxOrderIds)
    (henqueue : ∀ action ∈ actions, action.isEnqueue = false)
    (hrun : Runs.run (fun w a ↦ UnifiedLakehouse.step fns hash maxOrderIds tables w a)
      world actions = some world') : world'.pendingCount =
        world.pendingCount - actions.countP UnifiedAction.isComplete * (maxOrderIds + 1) := by
  induction actions generalizing world with
  | nil =>
    obtain rfl := Option.some.inj hrun
    simp
  | cons action actions ih =>
    obtain ⟨world₁, hstep, hrest⟩ := Runs.run_cons_eq_some.1 hrun
    obtain ⟨hdrains, hcount⟩ := h.step hstep
    rw [ih hdrains (fun a ha ↦ henqueue a (List.mem_cons_of_mem action ha)) hrest,
      hcount (henqueue action List.mem_cons_self), List.countP_cons, Nat.sub_sub]
    congr 1
    split
    · ring
    · ring

end Step

/-! ### A cycle -/

/-- What `_reconcile_pending_gold_if_ready` returns, or that it raises. -/
inductive CycleStatus
  | notPending
  | deferredSourceIncomplete
  | ended (status : ReconcileStatus)
  | raised
  deriving DecidableEq, Repr

section Cycle

variable (fns : SparkFunctions) (hash : BusinessHash) (maxOrderIds : ℕ)
  (order : List QueueRow → List QueueRow)

/-- The end of a cycle that has run Gold. -/
def finishCycle (world : UnifiedLakehouse W) (keys : List (BatchKey × ScopeKey)) (run : GoldRun) :
    Option (UnifiedLakehouse W × CycleStatus) :=
  let built := { world with gold := (runGold fns hash run world.gold).1 }
  match reconcileStatus (runGold fns hash run world.gold).2 with
  | none => some (built, .raised)
  | some .qualitySkipped => some (built, .ended .qualitySkipped)
  | some .published => (LakehousePipeline.complete built.queueRows keys).map fun queue ↦
      ({ built with queue := some queue }, .ended .published)

/-- **`_reconcile_pending_gold_if_ready`**, with the lock free: what it leaves behind and returns.
`order` is the order in which Spark returns the pending rows. -/
def reconcilePendingGoldIfReady (world : UnifiedLakehouse W) (stage : GoldStage W) :
    Option (UnifiedLakehouse W × CycleStatus) :=
  let rows := order (pendingRows world.queue)
  match pendingScope maxOrderIds (rows.take (maxOrderIds + 1)) with
  | none => some (world, .notPending)
  | some pending =>
    if world.ready pending then
      (world.goldRun { stage with writer := none, fullRebuild := false }).bind
        (world.finishCycle fns hash pending.keys)
    else some (world, .deferredSourceIncomplete)

/-- Cycles one after the other. -/
def reconcileCycles (world : UnifiedLakehouse W) :
    List (GoldStage W) → Option (UnifiedLakehouse W × List CycleStatus)
  | [] => some (world, [])
  | stage :: stages =>
    (world.reconcilePendingGoldIfReady fns hash maxOrderIds order stage).bind fun (after, status) ↦
      (reconcileCycles after stages).map fun (last, statuses) ↦ (last, status :: statuses)

end Cycle

section Refines

variable (fns : SparkFunctions) (hash : BusinessHash) (maxOrderIds : ℕ)
  (tables : BatchKey → List SilverTable) {order : List QueueRow → List QueueRow}
  {world world' : UnifiedLakehouse W} {stage : GoldStage W} {status : CycleStatus}

/-- A cycle begins and scans. -/
theorem run_scan (hholder : world.holder = none) (horder : ∀ rows, (order rows).Perm rows) :
    Runs.run (fun w a ↦ UnifiedLakehouse.step fns hash maxOrderIds tables w a) world
      [.beginCycle, .scan (order (pendingRows world.queue))] =
        some { world with
          holder := ((pendingScope maxOrderIds
            ((order (pendingRows world.queue)).take (maxOrderIds + 1))).filter world.ready).map
              fun pending ↦ .cycle (.ready pending) } := by
  have hbegin : world.step fns hash maxOrderIds tables .beginCycle =
      some { world with holder := some (.cycle .started) } := by
    rw [UnifiedLakehouse.step, hholder]
    rfl
  have hscan : UnifiedLakehouse.step fns hash maxOrderIds tables
      { world with holder := some (.cycle .started) }
      (.scan (order (pendingRows world.queue))) = some _ := if_pos (horder _)
  exact Runs.run_cons_eq_some.2 ⟨_, hbegin, Runs.run_cons_eq_some.2 ⟨_, hscan, rfl⟩⟩

/-- The Gold run of a cycle. -/
theorem step_goldStage {run : GoldRun}
    (hrun : world.goldRun { stage with writer := none, fullRebuild := false } = some run) :
    world.toLakehouse.step fns hash
        (.goldStage { stage with writer := none, fullRebuild := false }) =
      some { world.toLakehouse with gold := (runGold fns hash run world.gold).1 } := by
  rw [Lakehouse.step, hrun]
  rfl

/-- A cycle runs Gold. -/
theorem step_reconcile (pending : PendingGoldScope) {run : GoldRun}
    (hrun : world.goldRun { stage with writer := none, fullRebuild := false } = some run) :
    UnifiedLakehouse.step fns hash maxOrderIds tables
        { world with holder := some (.cycle (.ready pending)) } (.reconcile stage) =
      some { world with
        gold := (runGold fns hash run world.gold).1
        holder :=
          if reconcileStatus (runGold fns hash run world.gold).2 = some .published then
            some (.cycle (.built pending.keys))
          else none } := by
  rw [UnifiedLakehouse.step]
  dsimp only
  rw [hrun, Option.bind_some, step_goldStage fns hash hrun]
  rfl

/-- The end of a cycle is a run of actions. -/
theorem exists_run_of_finishCycle (hholder : world.holder = none) {pending : PendingGoldScope}
    {run : GoldRun}
    (hrun : world.goldRun { stage with writer := none, fullRebuild := false } = some run)
    (h : world.finishCycle fns hash pending.keys run = some (world', status)) :
    ∃ actions : List (UnifiedAction W),
      Runs.run (fun w a ↦ UnifiedLakehouse.step fns hash maxOrderIds tables w a)
        { world with holder := some (.cycle (.ready pending)) } actions = some world' ∧
      (∀ action ∈ actions, action.isEnqueue = false ∧ action.isFullRebuild = false) ∧
      actions.countP UnifiedAction.isComplete = (if status = .ended .published then 1 else 0) ∧
      world'.holder = none := by
  have hreconcile := step_reconcile fns hash maxOrderIds tables pending hrun
  rw [finishCycle] at h
  dsimp only at h
  rcases hstatus : reconcileStatus (runGold fns hash run world.gold).2 with - | - | -
  · rw [hstatus] at h hreconcile
    obtain ⟨rfl, rfl⟩ := Prod.mk.inj (Option.some.inj h)
    refine ⟨[.reconcile stage], Runs.run_cons_eq_some.2 ⟨_, hreconcile, ?_⟩, ?_, rfl, hholder⟩
    · rw [Runs.run_nil, hholder]
      rfl
    · simp [UnifiedAction.isEnqueue, UnifiedAction.isFullRebuild]
  · rw [hstatus] at h hreconcile
    obtain ⟨queue, hqueue, hresult⟩ := Option.map_eq_some_iff.1 h
    obtain ⟨rfl, rfl⟩ := Prod.mk.inj hresult
    refine ⟨[.reconcile stage, .complete], Runs.run_cons_eq_some.2 ⟨_, hreconcile, ?_⟩, ?_, rfl,
      hholder⟩
    · refine Runs.run_cons_eq_some.2 ⟨_, Option.map_eq_some_iff.2 ⟨queue, hqueue, rfl⟩, ?_⟩
      rw [Runs.run_nil, hholder]
    · simp [UnifiedAction.isEnqueue, UnifiedAction.isFullRebuild]
  · rw [hstatus] at h hreconcile
    obtain ⟨rfl, rfl⟩ := Prod.mk.inj (Option.some.inj h)
    refine ⟨[.reconcile stage], Runs.run_cons_eq_some.2 ⟨_, hreconcile, ?_⟩, ?_, rfl, hholder⟩
    · rw [Runs.run_nil, hholder]
      rfl
    · simp [UnifiedAction.isEnqueue, UnifiedAction.isFullRebuild]

/-- **A cycle is a run of actions**: it enqueues nothing, and completes what it has scanned exactly
if it returns `published`. -/
theorem exists_run_of_reconcile (hholder : world.holder = none)
    (horder : ∀ rows, (order rows).Perm rows)
    (h : world.reconcilePendingGoldIfReady fns hash maxOrderIds order stage =
      some (world', status)) :
    ∃ actions : List (UnifiedAction W),
      Runs.run (fun w a ↦ UnifiedLakehouse.step fns hash maxOrderIds tables w a) world actions =
        some world' ∧
      (∀ action ∈ actions, action.isEnqueue = false ∧ action.isFullRebuild = false) ∧
      actions.countP UnifiedAction.isComplete = (if status = .ended .published then 1 else 0) ∧
      world'.holder = none := by
  have hscan := run_scan fns hash maxOrderIds tables hholder horder
  rw [reconcilePendingGoldIfReady] at h
  rcases hpending : pendingScope maxOrderIds
    ((order (pendingRows world.queue)).take (maxOrderIds + 1)) with - | pending
  · rw [hpending] at h
    obtain ⟨rfl, rfl⟩ := Prod.mk.inj (Option.some.inj h)
    exact ⟨[], rfl, fun _ ha ↦ absurd ha List.not_mem_nil, rfl, hholder⟩
  rw [hpending, Option.filter_some] at hscan
  simp only [hpending] at h
  split at h
  · rename_i hready
    rw [if_pos hready] at hscan
    obtain ⟨run, hrun, hfinish⟩ := Option.bind_eq_some_iff.1 h
    obtain ⟨actions, hactions, hkind, hcount, hafter⟩ :=
      exists_run_of_finishCycle fns hash maxOrderIds tables hholder hrun hfinish
    refine ⟨_, Runs.run_append_eq_some.2 ⟨_, hscan, hactions⟩, ?_, ?_, hafter⟩
    · exact List.forall_mem_append.2
        ⟨by simp [UnifiedAction.isEnqueue, UnifiedAction.isFullRebuild], hkind⟩
    · rw [List.countP_append, hcount]
      simp [UnifiedAction.isComplete]
  · rename_i hready
    rw [if_neg hready] at hscan
    obtain ⟨rfl, rfl⟩ := Prod.mk.inj (Option.some.inj h)
    have hsame : { world with holder := none } = world := by
      rw [← hholder]
    refine ⟨_, hscan.trans (congrArg some hsame), ?_, rfl, hholder⟩
    simp [UnifiedAction.isEnqueue, UnifiedAction.isFullRebuild]

/-- **A Gold run without a manifest is up to date** with a release that has the versions of
Silver. -/
theorem runGold_of_current {run : GoldRun} {gold : GoldState} {release : GoldRelease}
    (hactive : gold.activeRelease = some release) (hfull : run.fullRebuild = false)
    (hmanifest : run.silverManifest = none)
    (hversions : ∀ t, release.silverVersions t = run.lake.version t) :
    runGold fns hash run gold = (gold, .upToDate) := by
  have hlive : refreshedVersions run release.silverVersions = release.silverVersions := by
    rcases refreshedVersions_eq_or run release.silverVersions with ⟨manifest, hm, -⟩ | hlive
    · cases hmanifest.symm.trans hm
    · rw [hlive]
      exact funext fun t ↦ (hversions t).symm
  rw [runGold, hactive]
  simp [hfull, hlive]

/-- Every scope of pending rows is ready. -/
def ScopesReady (maxOrderIds : ℕ) (world : UnifiedLakehouse W) : Prop :=
  ∀ rows, rows ⊆ pendingRows world.queue →
    ∀ pending, pendingScope maxOrderIds rows = some pending → world.ready pending = true

/-- A Gold run of a cycle ends as published. -/
def Builds (world : UnifiedLakehouse W) (stage : GoldStage W) : Prop :=
  ∀ run, world.goldRun { stage with writer := none, fullRebuild := false } = some run →
    reconcileStatus (runGold fns hash run world.gold).2 = some .published

variable {fns hash maxOrderIds}

omit [DecidableEq W] in
/-- Without a row that requires it, every scope is ready. -/
theorem scopesReady_of_not_requires
    (h : ∀ row ∈ pendingRows world.queue, row.requiresFactReadiness = false) :
    world.ScopesReady maxOrderIds := by
  intro rows hrows pending hscope
  obtain ⟨-, hscope⟩ := Option.ite_none_left_eq_some.1 hscope
  obtain rfl := Option.some.inj hscope
  have hrequires : (rows.any fun row ↦ row.requiresFactReadiness) = false :=
    List.any_eq_false.2 fun row hrow ↦ by simp [h row (hrows hrow)]
  rw [ready]
  simp [hrequires]

/-- **After a Gold run that ends as published**, any other one does. -/
theorem builds_of_reconcile (h : world.BehindSilver) {run : GoldRun}
    (hrun : world.goldRun { stage with writer := none, fullRebuild := false } = some run)
    (hstatus : reconcileStatus (runGold fns hash run world.gold).2 = some .published)
    (queue : Option (List QueueRow)) (stage' : GoldStage W) :
    Builds fns hash { world with gold := (runGold fns hash run world.gold).1, queue := queue }
      stage' := by
  have hafter : Lakehouse.BehindSilver
      { world.toLakehouse with gold := (runGold fns hash run world.gold).1 } :=
    h.step (step_goldStage fns hash hrun)
  obtain ⟨release, hactive, hversions⟩ := version_le_of_reconcile h rfl hrun hstatus
  intro run' hrun'
  obtain rfl := Option.some.inj hrun'
  rw [runGold_of_current fns hash hactive rfl rfl fun t ↦
    (hafter.release release hactive t).antisymm (hversions t)]
  rfl

/-- **A cycle that publishes** leaves a lakehouse on which every Gold run ends as published. -/
theorem reconcile_of_ready (hdrains : world.Drains maxOrderIds) (hbehind : world.BehindSilver)
    (horder : ∀ rows, (order rows).Perm rows) (hpending : 0 < world.pendingCount)
    (hready : world.ScopesReady maxOrderIds) (hbuilds : world.Builds fns hash stage) :
    ∃ world', world.reconcilePendingGoldIfReady fns hash maxOrderIds order stage =
        some (world', .ended .published) ∧
      world'.silver = world.silver ∧ world'.ScopesReady maxOrderIds ∧
      ∀ stage', world'.Builds fns hash stage' := by
  obtain ⟨pending, hscope, hnodup, hsub⟩ := exists_pendingScope maxOrderIds
    hdrains.nodup (horder (pendingRows world.queue)) (List.ne_nil_of_length_pos hpending)
  obtain ⟨queue, hqueue, -⟩ := complete_spec hdrains.nodup hnodup
  obtain ⟨run, hrun⟩ :
      ∃ run, world.goldRun { stage with writer := none, fullRebuild := false } = some run :=
    ⟨_, rfl⟩
  have hstatus := hbuilds run hrun
  refine ⟨{ world with gold := (runGold fns hash run world.gold).1, queue := some queue }, ?_, rfl,
    fun rows hrows ↦ ?_, builds_of_reconcile hbehind hrun hstatus _⟩
  · rw [reconcilePendingGoldIfReady]
    simp only [hscope, hready _ hsub pending hscope, if_true, hrun, Option.bind_some]
    rw [finishCycle]
    simp only [hstatus]
    exact congrArg _ hqueue
  · have hsubset := pendingRows_complete_subset hdrains.nodup hnodup hqueue
    exact hready rows (List.Subset.trans hrows hsubset)

variable {tables}

/-- A run without a forced full rebuild keeps the lakehouse sound. -/
theorem Sound.run (h : world.Sound tables) {actions : List (UnifiedAction W)}
    (hfull : ∀ action ∈ actions, action.isFullRebuild = false)
    (hrun : Runs.run (fun w a ↦ UnifiedLakehouse.step fns hash maxOrderIds tables w a)
      world actions = some world') : world'.Sound tables :=
  Runs.run_invariant (Sound tables) (fun _ _ _ hw hok hstep ↦ hw.step hok hstep) h
    (Runs.along_of_forall (fun a ha _ ↦ hfull a ha) _) hrun

/-- One batch less, rounded up. -/
theorem div_succ_eq {count : ℕ} (h : 0 < count) (limit : ℕ) :
    (count + limit) / (limit + 1) = (count - (limit + 1) + limit) / (limit + 1) + 1 := by
  have hsplit : count + limit = count - 1 + (limit + 1) := by omega
  rw [hsplit, Nat.add_div_right _ (Nat.succ_pos _)]
  rcases le_or_gt (limit + 1) count with hle | hlt
  · rw [show count - (limit + 1) + limit = count - 1 by omega]
  · rw [Nat.div_eq_of_lt (by omega), Nat.div_eq_of_lt (by omega)]

/-- **Cycles one after the other**, as many as the pending rows ask for, all return `published` and
leave nothing pending. -/
theorem reconcileCycles_spec (horder : ∀ rows, (order rows).Perm rows) {stages : List (GoldStage W)}
    (hholder : world.holder = none) (hdrains : world.Drains maxOrderIds)
    (hsound : world.Sound tables) (hready : world.ScopesReady maxOrderIds)
    (hbuilds : ∀ stage ∈ stages.head?, world.Builds fns hash stage)
    (hlength : stages.length = (world.pendingCount + maxOrderIds) / (maxOrderIds + 1)) :
    ∃ world', world.reconcileCycles fns hash maxOrderIds order stages =
        some (world', stages.map fun _ ↦ .ended .published) ∧
      world'.silver = world.silver ∧ world'.pendingCount = 0 ∧ world'.Sound tables := by
  induction stages generalizing world with
  | nil =>
    refine ⟨world, rfl, rfl, ?_, hsound⟩
    have hzero := Nat.lt_of_div_eq_zero (Nat.succ_pos _) hlength.symm
    omega
  | cons stage stages ih =>
    have hpending : 0 < world.pendingCount := by
      refine Nat.pos_of_ne_zero fun hzero ↦ ?_
      rw [hzero, Nat.zero_add, Nat.div_eq_of_lt (Nat.lt_succ_self _)] at hlength
      cases hlength
    obtain ⟨after, hcycle, hsilver, hready', hbuilds'⟩ := reconcile_of_ready hdrains
      hsound.queue.behind horder hpending hready (hbuilds stage rfl)
    obtain ⟨actions, hrun, hkind, hcount, hholder'⟩ :=
      exists_run_of_reconcile fns hash maxOrderIds tables hholder horder hcycle
    have hafter : after.pendingCount = world.pendingCount - (maxOrderIds + 1) := by
      rw [pendingCount_of_run hdrains (fun a ha ↦ (hkind a ha).1) hrun, hcount, if_pos rfl,
        Nat.one_mul]
    obtain ⟨world', hcycles, hsilver', hzero, hsound'⟩ := ih hholder' (drains_of_run hdrains hrun)
      (hsound.run (fun a ha ↦ (hkind a ha).2) hrun) hready' (fun stage' _ ↦ hbuilds' stage')
      (Nat.succ.inj (hlength.trans ((div_succ_eq hpending maxOrderIds).trans (by rw [hafter]))))
    refine ⟨world', ?_, hsilver'.trans hsilver, hzero, hsound'⟩
    rw [reconcileCycles, hcycle, Option.bind_some]
    exact Option.map_eq_some_iff.2 ⟨_, hcycles, rfl⟩

/-- **The queue drains**, in every lakehouse that a run without a forced full rebuild has led to. A
completion takes one more than the limit from the pending rows, whatever is done meanwhile, as long
as nothing is enqueued. With the lock free, every scope ready and a Gold run that ends as published,
as many cycles as that makes necessary all return `published`, in whatever order Spark returns the
rows; they leave Silver alone, and every request published and in the active release. -/
theorem queueDrains {actions : List (UnifiedAction W)}
    (hfull : ∀ action ∈ actions, action.isFullRebuild = false)
    (hrun : Runs.run (fun w a ↦ UnifiedLakehouse.step fns hash maxOrderIds tables w a)
      empty actions = some world) :
    (∀ more world', (∀ action ∈ more, action.isEnqueue = false) →
      Runs.run (fun w a ↦ UnifiedLakehouse.step fns hash maxOrderIds tables w a) world more =
        some world' →
      world'.pendingCount =
        world.pendingCount - more.countP UnifiedAction.isComplete * (maxOrderIds + 1)) ∧
    ∀ order stages, (∀ rows, (order rows).Perm rows) → world.holder = none →
      world.ScopesReady maxOrderIds → (∀ stage ∈ stages.head?, world.Builds fns hash stage) →
      stages.length = (world.pendingCount + maxOrderIds) / (maxOrderIds + 1) →
      ∃ world', world.reconcileCycles fns hash maxOrderIds order stages =
          some (world', stages.map fun _ ↦ .ended .published) ∧
        world'.silver = world.silver ∧
        ∀ row ∈ world'.queueRows, row.status = .published ∧ world'.Included row.requestId := by
  have hdrains := drains_of_run drains_empty hrun
  have hsound := sound_of_run hfull hrun
  refine ⟨fun more world' henqueue hmore ↦ pendingCount_of_run hdrains henqueue hmore,
    fun order stages horder hholder hready hbuilds hlength ↦ ?_⟩
  obtain ⟨world', hcycles, hsilver, hzero, hsound'⟩ :=
    reconcileCycles_spec horder hholder hdrains hsound hready hbuilds hlength
  refine ⟨world', hcycles, hsilver, fun row hrow ↦ ?_⟩
  have hpublished : row.status = .published := by
    cases hstatus : row.status with
    | published => rfl
    | pending =>
      have hmem : row ∈ pendingRows (some world'.queueRows) :=
        List.mem_filter.2 ⟨hrow, decide_eq_true hstatus⟩
      rw [pendingCount, pendingKeys, List.length_map] at hzero
      exact absurd hmem (List.length_eq_zero_iff.1 hzero ▸ List.not_mem_nil)
  exact ⟨hpublished, hsound'.queue.published row hrow hpublished⟩

end Refines

end UnifiedLakehouse

/-- After the first release three micro-batches enqueue a request each. -/
def threeBatches : List (UnifiedAction Bool) :=
  .beginBatch :: firstActions.map .batch ++
  [.endBatch, .beginMicroBatch shopBatch, .mergeTable .shops (renamedShop 'a' 'b' .cdcToSilver),
    .enqueue fun _ ↦ [], .returnBatch, .beginMicroBatch { shopBatch with batchId := 4 },
    .mergeTable .shops (renamedShop 'b' 'c' .cdcToSilver), .enqueue fun _ ↦ [], .returnBatch,
    .beginMicroBatch { shopBatch with batchId := 5 },
    .mergeTable .shops (renamedShop 'c' 'd' .cdcToSilver), .enqueue fun _ ↦ [], .returnBatch]

/-- With a limit of one id, a cycle takes two rows: three requests need two cycles, and two are
enough, although Spark returns the rows in the reverse order. -/
theorem queueDrains_threeBatches : ∃ world world' : UnifiedLakehouse Bool,
    Runs.run (fun w a ↦ UnifiedLakehouse.step .plain smallHash 1 (fun _ ↦ [.shops]) w a)
      UnifiedLakehouse.empty threeBatches = some world ∧ world.pendingCount = 3 ∧
    world.reconcileCycles .plain smallHash 1 List.reverse [smallStage none, smallStage none] =
      some (world', [.ended .published, .ended .published]) ∧
    ∀ row ∈ world'.queueRows, row.status = .published ∧ world'.Included row.requestId := by
  have hany : (Runs.run
      (fun w a ↦ UnifiedLakehouse.step .plain smallHash 1 (fun _ ↦ [.shops]) w a)
      UnifiedLakehouse.empty threeBatches).any (fun world ↦ world.holder.isNone &&
        decide (world.pendingCount = 3) &&
        (pendingRows world.queue).all (fun row ↦ !row.requiresFactReadiness) &&
        (world.goldRun { smallStage none with writer := none, fullRebuild := false }).all
          fun run ↦ reconcileStatus (runGold .plain smallHash run world.gold).2 =
            some .published) = true := by
    decide +kernel
  obtain ⟨world, hrun, hworld⟩ := (Option.any_eq_true _ _).1 hany
  simp only [Bool.and_eq_true, Option.isNone_iff_eq_none, decide_eq_true_eq, List.all_eq_true,
    Bool.not_eq_true', Option.all_eq_true] at hworld
  obtain ⟨⟨⟨hholder, hcount⟩, hrequires⟩, hbuilds⟩ := hworld
  obtain ⟨world', hcycles, -, hrows⟩ := (UnifiedLakehouse.queueDrains (by decide) hrun).2
    List.reverse [smallStage none, smallStage none] List.reverse_perm hholder
    (UnifiedLakehouse.scopesReady_of_not_requires hrequires)
    (fun stage hstage ↦ by
      obtain rfl := Option.some.inj hstage
      exact hbuilds)
    (by rw [hcount]; rfl)
  exact ⟨world, world', hrun, hcount, hcycles, hrows⟩

end LakehousePipeline
