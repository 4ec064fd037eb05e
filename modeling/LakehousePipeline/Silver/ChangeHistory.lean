import LakehousePipeline.Library.Window
import LakehousePipeline.Silver.CurrentState

/-!
# Silver change history

The change history of a table keeps every event, normalized like the current rows but never
collapsed. Gold reads it in the order of `_event_order_columns` (`historyOrder`); `historyStates`
turns the events of each entity into validity intervals, each ending where the next begins.

The identifiers of the Bronze row (`_bronze_event_id`, `_bronze_batch_id`, `_bronze_record_hash`),
the ingestion time and the constants are left out: nothing reads them.
-/

namespace LakehousePipeline

/-- The six nullable order columns after the event time (`_ORDER_FIELD_NAMES`). -/
structure OrderFields where
  /-- `_ingestion_priority`. -/
  ingestionPriority : Option ℤ
  /-- `_source_event_sequence`. -/
  sourceEventSequence : Option ℤ
  /-- `_source_event_subsequence`. -/
  sourceEventSubsequence : Option ℤ
  /-- `_source_lsn`. -/
  sourceLsn : Option ℤ
  /-- `_kafka_partition`. -/
  kafkaPartition : Option ℤ
  /-- `_kafka_offset`. -/
  kafkaOffset : Option ℤ
  deriving DecidableEq, Repr

/-- A row of a change history table. -/
structure HistoryRow (K P : Type) where
  /-- The primary key. -/
  key : K
  /-- `created_at`. -/
  createdAt : Timestamp
  /-- The other columns of the contract. -/
  payload : P
  /-- `_operation`. -/
  operation : Operation
  /-- `_event_occurred_at`. -/
  eventOccurredAt : Option Timestamp
  /-- `_history_event_id`. -/
  historyEventId : Text
  /-- `_ingestion_mode`. -/
  ingestionMode : IngestionMode
  /-- The order columns. -/
  order : OrderFields
  deriving DecidableEq

/-- The text of an operation. -/
def Operation.name : Operation → Text
  | .seed => ['S', 'E', 'E', 'D']
  | .insert => ['I', 'N', 'S', 'E', 'R', 'T']
  | .update => ['U', 'P', 'D', 'A', 'T', 'E']
  | .delete => ['D', 'E', 'L', 'E', 'T', 'E']

variable {K P : Type}

/-- `change_history`, with the table's cleaning of the business columns. -/
def changeHistory (fns : SparkFunctions) (tableName : Text) (clean : P → P)
    (events : List (BronzeEvent K P)) : List (HistoryRow K P) :=
  events.map fun e ↦
    { key := e.key
      createdAt := e.createdAt
      payload := clean e.payload
      operation := e.operation
      eventOccurredAt := e.eventOccurredAt
      historyEventId := fns.sha256 (concatWs hashSeparator
        [some tableName, some (e.eventId.asText fns), some e.batchId, e.sourceLsn.map fns.castInt,
          e.kafkaPartition.map fns.castInt, e.kafkaOffset.map fns.castInt,
          some e.operation.name])
      ingestionMode := e.ingestionMode
      order :=
        { ingestionPriority := some e.ingestionPriority
          sourceEventSequence := e.sourceEventSequence
          sourceEventSubsequence := e.sourceEventSubsequence
          sourceLsn := e.sourceLsn
          kafkaPartition := e.kafkaPartition
          kafkaOffset := e.kafkaOffset } }

/-! ### The order of events -/

/-- The order columns after the event time, nulls last. -/
abbrev OrderKey :=
  WithTop ℤ ×ₗ WithTop ℤ ×ₗ WithTop ℤ ×ₗ WithTop ℤ ×ₗ WithTop ℤ ×ₗ WithTop ℤ

/-- The six nullable columns as one sort key. -/
def OrderFields.key (order : OrderFields) : OrderKey :=
  toLex (ascNullsLast order.ingestionPriority,
    toLex (ascNullsLast order.sourceEventSequence,
      toLex (ascNullsLast order.sourceEventSubsequence,
        toLex (ascNullsLast order.sourceLsn,
          toLex (ascNullsLast order.kafkaPartition, ascNullsLast order.kafkaOffset)))))

/-- `_event_order_columns`: event time, the order columns, and last the history event id. -/
abbrev EventOrder := Timestamp ×ₗ OrderKey ×ₗ Text

/-! ### Validity intervals -/

/-- `_normalize_history_event_time`: Batch events carry UTC and are moved to local time. -/
def HistoryRow.normalizedOccurredAt (fns : SparkFunctions) (row : HistoryRow K P) :
    Option Timestamp :=
  if row.ingestionMode = .batch then row.eventOccurredAt.map fns.fromUtcTimestamp
  else row.eventOccurredAt

/-- `coalesce(_event_occurred_at, updated_at, created_at)`. -/
def HistoryRow.eventTime (fns : SparkFunctions) (updatedAt : P → Option Timestamp)
    (row : HistoryRow K P) : Timestamp :=
  ((row.normalizedOccurredAt fns).or (updatedAt row.payload)).getD row.createdAt

/-- The place of a history row in the event order. -/
def historyOrder (fns : SparkFunctions) (updatedAt : P → Option Timestamp)
    (row : HistoryRow K P) : EventOrder :=
  toLex (row.eventTime fns updatedAt, toLex (row.order.key, row.historyEventId))

/-- A history row with its validity interval. -/
structure HistoryState (K P : Type) where
  /-- The row. -/
  row : HistoryRow K P
  /-- `_state_from`. -/
  stateFrom : Timestamp
  /-- `_state_deleted`. -/
  stateDeleted : Bool
  /-- `_state_to`: the start of the next state of the entity. -/
  stateTo : Option Timestamp

/-- `_history_states` for the sorted rows of one entity. -/
def entityStates (fns : SparkFunctions) (updatedAt : P → Option Timestamp)
    (rows : List (HistoryRow K P)) : List (HistoryState K P) :=
  Window.overRows (fun _ row after ↦
    { row := row
      stateFrom := row.eventTime fns updatedAt
      stateDeleted := row.operation = .delete
      stateTo := after.head?.map fun next ↦ next.eventTime fns updatedAt }) rows

/-- `_history_states`. -/
def historyStates [DecidableEq K] (fns : SparkFunctions) (updatedAt : P → Option Timestamp)
    (history : List (HistoryRow K P)) : List (HistoryState K P) :=
  (Window.partitionBy (fun row ↦ row.key) history).flatMap fun p ↦
    entityStates fns updatedAt
      (p.insertionSort fun a b ↦ historyOrder fns updatedAt a ≤ historyOrder fns updatedAt b)

end LakehousePipeline
