import LakehousePipeline.Adapters.Upsert
import LakehousePipeline.Contracts
import LakehousePipeline.Library.Window

/-!
# Silver current rows

A Silver table has one row per primary key: the business columns (`payload`, with the row-wise
cleaning of the table as `clean`), `created_at`, the soft-delete flag and the metadata that orders
source events. `currentState` collapses a batch of Bronze events to the newest event per key.

The metadata columns `_silver_updated_at` (the time of the run), `_source_table` and
`_silver_schema_version` (constants) are left out: nothing reads them.
-/

namespace LakehousePipeline

/-- `_operation` of a change event. -/
inductive Operation
  | seed
  | insert
  | update
  | delete
  deriving DecidableEq, Repr

/-- `_ingestion_mode`. -/
inductive IngestionMode
  | batch
  | cdc
  deriving DecidableEq, Repr

/-- `_event_id`: a number in Batch Bronze, a text in typed CDC Bronze. -/
inductive BronzeEventId
  | number (id : ℤ)
  | text (id : Text)
  deriving DecidableEq

/-- `cast(_ as string)`. -/
def BronzeEventId.asText (fns : SparkFunctions) : BronzeEventId → Text
  | .number id => fns.castInt id
  | .text id => id

/-- `cast(_ as long)`, taken for Batch events only, whose ids are numbers. -/
def BronzeEventId.asLong : BronzeEventId → Option ℤ
  | .number id => some id
  | .text _ => none

/-- A Bronze event of a table with primary key in `K` and business columns in `P`. -/
structure BronzeEvent (K P : Type) where
  /-- The primary key. -/
  key : K
  /-- `created_at`. -/
  createdAt : Timestamp
  /-- The other columns of the contract. -/
  payload : P
  /-- `_operation`. -/
  operation : Operation
  /-- `_event_occurred_at`. -/
  eventOccurredAt : Option Timestamp
  /-- `_event_id`. -/
  eventId : BronzeEventId
  /-- `_batch_id`. -/
  batchId : Text
  /-- Whether `_ingestion_type` is `streaming_cdc`. -/
  isStreamingCdc : Bool
  /-- `_source_lsn`. -/
  sourceLsn : Option ℤ
  /-- `_kafka_partition`. -/
  kafkaPartition : Option ℤ
  /-- `_kafka_offset`. -/
  kafkaOffset : Option ℤ
  deriving DecidableEq

/-- A row of a Silver table. -/
structure SilverRow (K P : Type) where
  /-- The primary key. -/
  key : K
  /-- `created_at`. -/
  createdAt : Timestamp
  /-- The other columns of the contract. -/
  payload : P
  /-- `_operation`. -/
  operation : Operation
  /-- `_is_deleted`. -/
  isDeleted : Bool
  /-- `_event_occurred_at`. -/
  eventOccurredAt : Option Timestamp
  /-- `_bronze_event_id`. -/
  bronzeEventId : Text
  /-- `_bronze_batch_id`. -/
  bronzeBatchId : Text
  /-- `_ingestion_mode`. -/
  ingestionMode : IngestionMode
  /-- `_ingestion_priority`. -/
  ingestionPriority : ℤ
  /-- `_source_event_sequence`. -/
  sourceEventSequence : Option ℤ
  /-- `_source_event_subsequence`. -/
  sourceEventSubsequence : Option ℤ
  /-- `_source_lsn`. -/
  sourceLsn : Option ℤ
  /-- `_kafka_partition`. -/
  kafkaPartition : Option ℤ
  /-- `_kafka_offset`. -/
  kafkaOffset : Option ℤ
  deriving DecidableEq

variable {K P : Type}

/-! ### The sequence of an event -/

namespace BronzeEvent

variable (e : BronzeEvent K P)

/-- `ingestion_mode`. -/
def ingestionMode : IngestionMode :=
  if e.isStreamingCdc then .cdc else .batch

/-- `ingestion_priority`: CDC wins a tie in event time. -/
def ingestionPriority : ℤ :=
  if e.ingestionMode = .cdc then 2 else 1

/-- `source_event_sequence`. -/
def sourceEventSequence : Option ℤ :=
  if e.ingestionMode = .cdc then e.sourceLsn.or e.kafkaOffset else e.eventId.asLong

/-- `source_event_subsequence`. -/
def sourceEventSubsequence : Option ℤ :=
  if e.ingestionMode = .cdc then some (e.kafkaOffset.getD (-1)) else some 0

/-- The values of `SILVER_SEQUENCE_COLUMNS`. -/
def sequenceColumns : List (Option ℤ) :=
  [e.eventOccurredAt, some e.ingestionPriority, e.sourceEventSequence, e.sourceEventSubsequence]

/-- The place of the event in the sequence order. -/
def sequence : List (WithBot ℤ) :=
  sequenceKey e.sequenceColumns

/-- The order of the window of `current_state`, to be read downwards. -/
def windowOrder (fns : SparkFunctions) : List (WithBot ℤ) ×ₗ Text :=
  toLex (e.sequence, e.eventId.asText fns)

/-- The Silver row of an event. -/
def toSilverRow (fns : SparkFunctions) : SilverRow K P where
  key := e.key
  createdAt := e.createdAt
  payload := e.payload
  operation := e.operation
  isDeleted := e.operation = .delete
  eventOccurredAt := e.eventOccurredAt
  bronzeEventId := e.eventId.asText fns
  bronzeBatchId := e.batchId
  ingestionMode := e.ingestionMode
  ingestionPriority := e.ingestionPriority
  sourceEventSequence := e.sourceEventSequence
  sourceEventSubsequence := e.sourceEventSubsequence
  sourceLsn := e.sourceLsn
  kafkaPartition := e.kafkaPartition
  kafkaOffset := e.kafkaOffset

end BronzeEvent

/-- The values of `SILVER_SEQUENCE_COLUMNS` in a Silver row. -/
def SilverRow.sequenceColumns (row : SilverRow K P) : List (Option ℤ) :=
  [row.eventOccurredAt, some row.ingestionPriority, row.sourceEventSequence,
    row.sourceEventSubsequence]

/-- The place of the row in the sequence order. -/
def SilverRow.sequence (row : SilverRow K P) : List (WithBot ℤ) :=
  sequenceKey row.sequenceColumns

@[simp] theorem BronzeEvent.sequence_toSilverRow (e : BronzeEvent K P) (fns : SparkFunctions) :
    (e.toSilverRow fns).sequence = e.sequence := rfl

/-- The row without its ingestion metadata. -/
def SilverRow.business (row : SilverRow K P) : BusinessRow K P where
  key := row.key
  createdAt := row.createdAt
  payload := row.payload

/-! ### Collapsing a batch -/

variable [DecidableEq K]

/-- `current_state`: the first event of each key in the window order. -/
def currentState (fns : SparkFunctions) (events : List (BronzeEvent K P)) :
    List (SilverRow K P) :=
  (Window.firstPerPartition (fun e ↦ e.key) (fun a b ↦ b.windowOrder fns ≤ a.windowOrder fns)
    events).map fun e ↦ e.toSilverRow fns

/-- `transform_sales_table` and `transform_customer_table`: the current rows with the table's
cleaning of the business columns. -/
def transformTable (fns : SparkFunctions) (clean : P → P) (events : List (BronzeEvent K P)) :
    List (SilverRow K P) :=
  (currentState fns events).map fun row ↦ { row with payload := clean row.payload }

/-- The Silver row an event is merged as. -/
def mergedRow (fns : SparkFunctions) (clean : P → P) (e : BronzeEvent K P) : SilverRow K P :=
  { e.toSilverRow fns with payload := clean e.payload }

omit [DecidableEq K] in
@[simp] theorem sequence_mergedRow (fns : SparkFunctions) (clean : P → P) (e : BronzeEvent K P) :
    (mergedRow fns clean e).sequence = e.sequence := rfl

theorem transformTable_eq_map (fns : SparkFunctions) (clean : P → P)
    (events : List (BronzeEvent K P)) :
    transformTable fns clean events =
      (Window.firstPerPartition (fun e ↦ e.key) (fun a b ↦ b.windowOrder fns ≤ a.windowOrder fns)
        events).map (mergedRow fns clean) := by
  rw [transformTable, currentState, List.map_map]
  rfl

theorem nodup_key_transformTable (fns : SparkFunctions) (clean : P → P)
    (events : List (BronzeEvent K P)) :
    ((transformTable fns clean events).map fun row ↦ row.key).Nodup := by
  rw [transformTable_eq_map, List.map_map]
  exact Window.nodup_map_firstPerPartition _ _ _

omit [DecidableEq K] in
theorem total_windowOrder (fns : SparkFunctions) :
    Std.Total fun a b : BronzeEvent K P ↦ b.windowOrder fns ≤ a.windowOrder fns :=
  ⟨fun _ _ ↦ le_total _ _⟩

omit [DecidableEq K] in
theorem isTrans_windowOrder (fns : SparkFunctions) :
    IsTrans (BronzeEvent K P) fun a b ↦ b.windowOrder fns ≤ a.windowOrder fns :=
  ⟨fun _ _ _ hab hbc ↦ hbc.trans hab⟩

/-- The window of a key keeps its newest event. -/
theorem find?_windowOrder (fns : SparkFunctions) (events : List (BronzeEvent K P)) (k : K) :
    ((Window.firstPerPartition (fun e ↦ e.key) (fun a b ↦ b.windowOrder fns ≤ a.windowOrder fns)
        events).find? (fun e ↦ e.key = k) = none ∧ ∀ e ∈ events, e.key ≠ k) ∨
      ∃ e ∈ events, e.key = k ∧ (∀ x ∈ events, x.key = k → x.sequence ≤ e.sequence) ∧
        (Window.firstPerPartition (fun e ↦ e.key) (fun a b ↦ b.windowOrder fns ≤ a.windowOrder fns)
          events).find? (fun e ↦ e.key = k) = some e := by
  have := total_windowOrder (K := K) (P := P) fns
  have := isTrans_windowOrder (K := K) (P := P) fns
  refine (Window.find?_firstPerPartition (fun e : BronzeEvent K P ↦ e.key)
    (fun a b ↦ b.windowOrder fns ≤ a.windowOrder fns) events k).imp_right ?_
  rintro ⟨e, he, hk, hfirst, hfind⟩
  refine ⟨e, he, hk, fun x hx hxk ↦ ?_, hfind⟩
  rcases hfirst x hx hxk with hle | rfl
  · rcases Prod.Lex.toLex_le_toLex.1 hle with hlt | ⟨heq, -⟩
    · exact hlt.le
    · exact heq.le
  · exact le_rfl

/-- **Each key is merged as its newest event.** -/
theorem lookup_transformTable (fns : SparkFunctions) (clean : P → P)
    (events : List (BronzeEvent K P)) (k : K) :
    (MergeInto.lookup (fun row ↦ row.key) k (transformTable fns clean events) = none ∧
        ∀ e ∈ events, e.key ≠ k) ∨
      ∃ e ∈ events, e.key = k ∧ (∀ x ∈ events, x.key = k → x.sequence ≤ e.sequence) ∧
        MergeInto.lookup (fun row ↦ row.key) k (transformTable fns clean events) =
          some (mergedRow fns clean e) := by
  have hlookup : MergeInto.lookup (fun row ↦ row.key) k (transformTable fns clean events) =
      ((Window.firstPerPartition (fun e ↦ e.key) (fun a b ↦ b.windowOrder fns ≤ a.windowOrder fns)
        events).find? fun e ↦ e.key = k).map (mergedRow fns clean) := by
    rw [transformTable_eq_map, MergeInto.lookup, List.find?_map]
    rfl
  rw [hlookup]
  rcases find?_windowOrder fns events k with ⟨hfind, hno⟩ | ⟨e, he, hk, hnewest, hfind⟩
  · exact Or.inl ⟨by rw [hfind]; rfl, hno⟩
  · exact Or.inr ⟨e, he, hk, hnewest, by rw [hfind]; rfl⟩

end LakehousePipeline
