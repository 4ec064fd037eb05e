import LakehousePipeline.Adapters.Upsert
import LakehousePipeline.Streaming.TypedBronze

/-!
# `gold_reconcile_queue`

The hand-off between Silver and Gold. A micro-batch enqueues its request under the scopes it
affects, one row a scope; a Gold cycle reads a bounded number of pending rows and, when it has
published, completes the rows it has read. Both are merges on the request and the scope, so a
request that is enqueued again is pending again, and no request ever leaves the queue.

The timestamps of a row are written and never read, so they are left out.
-/

namespace LakehousePipeline

/-- `scope_key`. -/
inductive ScopeKey
  /-- "all-orders". -/
  | allOrders
  /-- "order:…". -/
  | order (orderId : ℤ)
  /-- "metadata-only". -/
  | metadataOnly
  deriving DecidableEq, Repr

/-- `status`. -/
inductive QueueStatus
  | pending
  | published
  deriving DecidableEq, Repr

/-- A row of `gold_reconcile_queue`. -/
structure QueueRow where
  /-- `request_id`. -/
  requestId : BatchKey
  /-- `scope_key`. -/
  scopeKey : ScopeKey
  /-- `order_id`. -/
  orderId : Option ℤ
  /-- `requires_fact_readiness`. -/
  requiresFactReadiness : Bool
  /-- `status`. -/
  status : QueueStatus
  deriving DecidableEq

/-- The merge keys. -/
def QueueRow.key (row : QueueRow) : BatchKey × ScopeKey :=
  (row.requestId, row.scopeKey)

/-- `PendingGoldScope`. -/
structure PendingGoldScope where
  /-- `keys`. -/
  keys : List (BatchKey × ScopeKey)
  /-- `affected_order_ids`, none for all orders. -/
  affectedOrderIds : Option (List ℤ)
  /-- `requires_fact_readiness`. -/
  requiresFactReadiness : Bool
  deriving DecidableEq

/-! ### The three operations -/

/-- The scopes of a request; an order id that is not positive widens it to all orders. -/
def scopes : Option (List ℤ) → List (ScopeKey × Option ℤ)
  | none => [(.allOrders, none)]
  | some [] => [(.metadataOnly, none)]
  | some orderIds =>
    if orderIds.any fun orderId ↦ orderId ≤ 0 then [(.allOrders, none)]
    else orderIds.dedup.map fun orderId ↦ (.order orderId, some orderId)

/-- The rows of a request. -/
def requestRows (requestId : BatchKey) (affectedOrderIds : Option (List ℤ))
    (requiresFactReadiness : Bool) : List QueueRow :=
  (scopes affectedOrderIds).map fun (scopeKey, orderId) ↦
    ⟨requestId, scopeKey, orderId, requiresFactReadiness, .pending⟩

/-- The options of both merges. -/
def queueOptions : UpsertOptions (BatchKey × ScopeKey) :=
  { UpsertOptions.default _ with sourceIsNonempty := true }

/-- `enqueue`; the result is `none` when the merge fails. -/
def enqueue (queue : Option (List QueueRow)) (requestId : BatchKey)
    (affectedOrderIds : Option (List ℤ)) (requiresFactReadiness : Bool) : Option (List QueueRow) :=
  (upsertTable (keyedColumns QueueRow.key) queueOptions queue
    (requestRows requestId affectedOrderIds requiresFactReadiness)).map UpsertResult.rows

/-- The rows that are pending. -/
def pendingRows (queue : Option (List QueueRow)) : List QueueRow :=
  (queue.getD []).filter fun row ↦ row.status = .pending

/-- `pending`, for the rows that the limited read has collected. -/
def pendingScope (maxOrderIds : ℕ) (rows : List QueueRow) : Option PendingGoldScope :=
  if rows = [] then none
  else
    let fullScope := (rows.any fun row ↦ row.scopeKey = .allOrders) || maxOrderIds < rows.length
    some {
      keys := rows.map QueueRow.key
      affectedOrderIds :=
        if fullScope then none
        else some ((rows.filterMap fun row ↦ row.orderId).filter fun orderId ↦ 0 < orderId).dedup
      requiresFactReadiness := rows.any fun row ↦ row.requiresFactReadiness }

/-- The rows with the given keys, published. -/
def completedRows (queue : List QueueRow) (keys : List (BatchKey × ScopeKey)) : List QueueRow :=
  keys.flatMap fun key ↦ (queue.filter fun row ↦ row.key = key).map fun row ↦
    { row with status := .published }

/-- `complete`; the result is `none` when the merge fails. -/
def complete (queue : List QueueRow) (keys : List (BatchKey × ScopeKey)) :
    Option (List QueueRow) :=
  if keys = [] then some queue
  else (upsertTable (keyedColumns QueueRow.key) queueOptions (some queue)
    (completedRows queue keys)).map UpsertResult.rows

/-! ### What they do to the queue -/

variable {queue queue' : List QueueRow} {requestId : BatchKey} {affectedOrderIds : Option (List ℤ)}
  {requiresFactReadiness : Bool} {keys : List (BatchKey × ScopeKey)} {row : QueueRow}

theorem scopes_ne_nil (affectedOrderIds : Option (List ℤ)) : scopes affectedOrderIds ≠ [] := by
  rcases affectedOrderIds with - | (- | ⟨orderId, orderIds⟩)
  · exact List.cons_ne_nil _ _
  · exact List.cons_ne_nil _ _
  · show (if _ then _ else _) ≠ []
    split
    · exact List.cons_ne_nil _ _
    · rw [ne_eq, List.map_eq_nil_iff, List.dedup_eq_nil]
      exact List.cons_ne_nil _ _

/-- The rows of a request are pending and have its id. -/
theorem mem_requestRows (h : row ∈ requestRows requestId affectedOrderIds requiresFactReadiness) :
    row.requestId = requestId ∧ row.status = .pending := by
  obtain ⟨⟨scopeKey, orderId⟩, -, rfl⟩ := List.mem_map.1 h
  exact ⟨rfl, rfl⟩

theorem exists_mem_requestRows (requestId : BatchKey) (affectedOrderIds : Option (List ℤ))
    (requiresFactReadiness : Bool) :
    ∃ row, row ∈ requestRows requestId affectedOrderIds requiresFactReadiness := by
  refine List.exists_mem_of_ne_nil _ fun hnil ↦ scopes_ne_nil affectedOrderIds ?_
  exact List.map_eq_nil_iff.1 hnil

/-- **After `enqueue` a row is one of the request or was there before.** -/
theorem mem_of_enqueue {old : Option (List QueueRow)}
    (h : enqueue old requestId affectedOrderIds requiresFactReadiness = some queue')
    (hrow : row ∈ queue') :
    (row.requestId = requestId ∧ row.status = .pending) ∨ row ∈ old.getD [] := by
  obtain ⟨result, hresult, rfl⟩ := Option.map_eq_some_iff.1 h
  rcases old with - | queue
  · obtain rfl := Option.some.inj hresult
    exact Or.inl (mem_requestRows hrow)
  · rcases mem_of_upsertTable rfl hresult hrow with hnew | ⟨hold, -⟩
    · exact Or.inl (mem_requestRows hnew)
    · exact Or.inr hold

/-- **`enqueue` leaves the request in the queue.** -/
theorem exists_of_enqueue {old : Option (List QueueRow)}
    (h : enqueue old requestId affectedOrderIds requiresFactReadiness = some queue') :
    ∃ row ∈ queue', row.requestId = requestId := by
  obtain ⟨result, hresult, rfl⟩ := Option.map_eq_some_iff.1 h
  obtain ⟨row, hrow⟩ := exists_mem_requestRows requestId affectedOrderIds requiresFactReadiness
  rcases old with - | queue
  · obtain rfl := Option.some.inj hresult
    exact ⟨row, hrow, (mem_requestRows hrow).1⟩
  · obtain ⟨row', hrow', hkey⟩ := List.mem_map.1 (key_mem_upsertTable_of_source rfl hresult hrow)
    refine ⟨row', hrow', ?_⟩
    rw [← (mem_requestRows hrow).1]
    exact congrArg Prod.fst hkey

/-- A merge into the queue keeps every request. -/
theorem exists_of_upsertQueue {df : List QueueRow} {result : UpsertResult QueueRow}
    (h : upsertTable (keyedColumns QueueRow.key) queueOptions (some queue) df = some result)
    (hrow : row ∈ queue) : ∃ row' ∈ result.rows, row'.requestId = row.requestId := by
  obtain ⟨row', hrow', hkey⟩ := List.mem_map.1
    (key_mem_upsertTable rfl rfl h (List.mem_map_of_mem hrow) List.not_mem_nil)
  exact ⟨row', hrow', congrArg Prod.fst hkey⟩

/-- **`enqueue` keeps every request.** -/
theorem exists_of_enqueue_of_mem {old : Option (List QueueRow)}
    (h : enqueue old requestId affectedOrderIds requiresFactReadiness = some queue')
    (hrow : row ∈ old.getD []) : ∃ row' ∈ queue', row'.requestId = row.requestId := by
  obtain ⟨result, hresult, rfl⟩ := Option.map_eq_some_iff.1 h
  rcases old with - | queue
  · exact absurd hrow List.not_mem_nil
  · exact exists_of_upsertQueue hresult hrow

/-- **After `complete` a row is published under one of the keys or was there before.** -/
theorem mem_of_complete (h : complete queue keys = some queue') (hrow : row ∈ queue') :
    row.key ∈ keys ∧ (∃ old ∈ queue, old.key = row.key) ∨ row ∈ queue := by
  rw [complete] at h
  split at h
  · exact Or.inr (Option.some.inj h ▸ hrow)
  · obtain ⟨result, hresult, rfl⟩ := Option.map_eq_some_iff.1 h
    rcases mem_of_upsertTable rfl hresult hrow with hnew | ⟨hold, -⟩
    · obtain ⟨key, hkey, hrows⟩ := List.mem_flatMap.1 hnew
      obtain ⟨old, hfilter, rfl⟩ := List.mem_map.1 hrows
      obtain ⟨hold, heq⟩ := List.mem_filter.1 hfilter
      obtain rfl := of_decide_eq_true heq
      exact Or.inl ⟨hkey, old, hold, rfl⟩
    · exact Or.inr hold

/-- **`complete` keeps every request.** -/
theorem exists_of_complete (h : complete queue keys = some queue') (hrow : row ∈ queue) :
    ∃ row' ∈ queue', row'.requestId = row.requestId := by
  rw [complete] at h
  split at h
  · exact ⟨row, Option.some.inj h ▸ hrow, rfl⟩
  · obtain ⟨result, hresult, rfl⟩ := Option.map_eq_some_iff.1 h
    exact exists_of_upsertQueue hresult hrow

end LakehousePipeline
