import LakehousePipeline.Streaming.TypedBronze

/-!
# Source order in Unified Silver

A source change reaches Silver by Batch, from `change_events`, and by CDC, through Debezium. Both
copies are merged under the sequence columns, event time first. The two paths do not mean the same
by it: Batch takes `occurred_at`, the time of the source transaction; the CDC path takes the time at
which the connector made the envelope (`ts_ms`) and leaves the time of the source transaction
(`source.ts_ms`) aside. So the copy of an old change that the connector emitted late compares as
newer than the Batch copy of a newer change (`silver_goesBack`).

A merge can only raise the sequence of the row of a key (`lookup_mergePiece_mono`). Silver therefore
never goes back in source order if the sequences of all copies are in source order, and
`neverGoesBack_iff` says that this is needed as well, once deliveries are free.

## What it means not to go back

Silver holds the effect of a copy if the row of the key carries it, or if it is a delete and there
is no row (`HoldsEffect`). `NeverGoesBack` is about all deliveries: pieces of Batch copies and CDC
copies in any order, each copy any number of times. If at some point Silver holds the effect of a
change, then at no later point does the row carry an earlier change.

The deliveries are restricted in one way: a CDC delete finds a row (`DeletesFindRows`). Without it a
delete could be dropped and an older copy take its place, which is another defect.

## Both directions

* If the sequences are in source order, a merge raises the sequence of the row, so no earlier change
  gets past it (`neverGoesBack_of_sequences`).
* If two copies of a key are out of order, a delivery of the two goes back: the later change first,
  then the earlier one, which has the greater sequence (`sequences_of_neverGoesBack`). A CDC delete
  cannot come first, so where the later change is one, an older copy is delivered before it; if
  there is none, the pair never shows, and the condition leaves it out (`CanBeHeld`).

Copies are told apart by the numbers of the source and of Kafka (`Identified`): with two changes
under one number there is no order to speak of.
-/

namespace LakehousePipeline

open MergeInto Runs

/-! ### From Kafka to the input of Silver -/

/-- `source` of a Debezium envelope. -/
structure DebeziumSource where
  schema : Option Text
  table : Option Text
  lsn : Option ℤ
  txId : Option ℤ
  tsMs : Option ℤ
  snapshot : Option Text
  deriving DecidableEq

/-- `transaction` of a Debezium envelope. -/
structure DebeziumTransaction where
  id : Option Text
  totalOrder : Option ℤ
  dataCollectionOrder : Option ℤ
  deriving DecidableEq

/-- A Debezium envelope. -/
structure DebeziumEnvelope where
  op : Option Text
  tsMs : Option ℤ
  source : Option DebeziumSource
  transaction : Option DebeziumTransaction
  deriving DecidableEq

/-- A Kafka record, with its value parsed. -/
structure KafkaRecord where
  topic : Text
  partition : ℤ
  offset : ℤ
  envelope : Option DebeziumEnvelope
  deriving DecidableEq

/-- `timestamp_millis`. -/
def timestampMillis (millis : ℤ) : Timestamp := millis * 1000

/-- A raw CDC row, as far as it is decoded from the envelope. -/
structure RawCdcEvent where
  /-- The columns typed Bronze takes over. -/
  transport : CdcTransport
  /-- `operation`. -/
  operation : Option Text
  /-- `source_timestamp`. -/
  sourceTimestamp : Option Timestamp
  deriving DecidableEq

/-- `normalize_debezium_events`: the event time is the time of the envelope. -/
def normalizeDebeziumEvent (fns : SparkFunctions) (ingestedAt : Timestamp) (record : KafkaRecord) :
    RawCdcEvent where
  transport :=
    { transportEventId := some (concatWs [':']
        [some record.topic, some (fns.castInt record.partition), some (fns.castInt record.offset)])
      eventTimestamp := (record.envelope.bind fun e ↦ e.tsMs).map timestampMillis
      sourceLsn := record.envelope.bind fun e ↦ e.source.bind fun s ↦ s.lsn
      sourceTxId := record.envelope.bind fun e ↦ e.source.bind fun s ↦ s.txId
      transactionId := record.envelope.bind fun e ↦ e.transaction.bind fun t ↦ t.id
      transactionOrder := record.envelope.bind fun e ↦ e.transaction.bind fun t ↦ t.totalOrder
      collectionOrder :=
        record.envelope.bind fun e ↦ e.transaction.bind fun t ↦ t.dataCollectionOrder
      topic := record.topic
      partition := record.partition
      offset := record.offset
      ingestedAt := ingestedAt
      sourceSchema := record.envelope.bind fun e ↦ e.source.bind fun s ↦ s.schema
      sourceTable := record.envelope.bind fun e ↦ e.source.bind fun s ↦ s.table }
  operation := record.envelope.bind fun e ↦ e.op
  sourceTimestamp :=
    (record.envelope.bind fun e ↦ e.source.bind fun s ↦ s.tsMs).map timestampMillis

variable {K P : Type}

/-- A typed Bronze row as an event for Silver. Rows without a known operation are quarantined. -/
def TypedCdcRow.bronzeEvent (row : TypedCdcRow (BusinessRow K P)) : Option (BronzeEvent K P) :=
  row.operation.map fun operation ↦
    { key := row.columns.key
      createdAt := row.columns.createdAt
      payload := row.columns.payload
      operation := operation
      eventOccurredAt := row.transport.eventTimestamp
      eventId := .text (row.transport.transportEventId.getD [])
      batchId := row.batchKey.queryName
      isStreamingCdc := true
      sourceLsn := row.transport.sourceLsn
      kafkaPartition := some row.transport.partition
      kafkaOffset := some row.transport.offset }

/-! ### Copies of source changes -/

/-- The operations of a trigger, and of a Debezium connector. -/
inductive ChangeOperation
  | insert
  | update
  | delete
  deriving DecidableEq, Repr

/-- `operation` of `change_events`, as Bronze has it. -/
def ChangeOperation.operation : ChangeOperation → Operation
  | .insert => .insert
  | .update => .update
  | .delete => .delete

/-- `op` of a Debezium envelope. -/
def ChangeOperation.code : ChangeOperation → Text
  | .insert => ['c']
  | .update => ['u']
  | .delete => ['d']

/-- A change of a row of the source. -/
structure SourceChange (K P : Type) where
  /-- The row after the change, or before a delete. -/
  row : BusinessRow K P
  /-- What the change is. -/
  operation : ChangeOperation
  /-- Its place in the commit order of the source. -/
  position : ℕ
  /-- `event_id` of its row in `change_events`. -/
  eventId : ℤ
  /-- `occurred_at` of its row in `change_events`. -/
  occurredAt : Timestamp
  /-- Its place in the write-ahead log. -/
  lsn : ℤ
  deriving DecidableEq

/-- How a copy of a change is delivered. -/
inductive Delivery
  /-- By Batch. -/
  | batch
  /-- By CDC: the connector makes the envelope at `tsMs` and Kafka stores it. -/
  | cdc (tsMs partition offset : ℤ)
  deriving DecidableEq

/-- The Kafka offset of a CDC copy. -/
def Delivery.kafkaOffset : Delivery → Option ℤ
  | .batch => none
  | .cdc _ _ offset => some offset

/-- A delivered copy of a change. -/
structure Copy (K P : Type) where
  change : SourceChange K P
  delivery : Delivery
  deriving DecidableEq

/-- The Kafka record of a change. -/
def SourceChange.record (change : SourceChange K P) (tsMs partition offset : ℤ) : KafkaRecord where
  topic := ['t']
  partition := partition
  offset := offset
  envelope := some
    { op := some change.operation.code
      tsMs := some tsMs
      source := some
        { schema := some ['s']
          table := some ['t']
          lsn := some change.lsn
          txId := none
          tsMs := some (change.occurredAt / 1000)
          snapshot := none }
      transaction := none }

/-- The Bronze event of a Batch copy (`change_event_query`). -/
def SourceChange.batchEvent (change : SourceChange K P) : BronzeEvent K P where
  key := change.row.key
  createdAt := change.row.createdAt
  payload := change.row.payload
  operation := change.operation.operation
  eventOccurredAt := some change.occurredAt
  eventId := .number change.eventId
  batchId := ['b']
  isStreamingCdc := false
  sourceLsn := none
  kafkaPartition := none
  kafkaOffset := none

/-- The typed Bronze row of a CDC copy. -/
def SourceChange.typedRow (fns : SparkFunctions) (change : SourceChange K P)
    (tsMs partition offset : ℤ) : TypedCdcRow (BusinessRow K P) :=
  let raw := normalizeDebeziumEvent fns 0 (change.record tsMs partition offset)
  { columns := change.row
    transport := raw.transport
    operation := decodeOperation raw.operation
    batchKey := ⟨['q'], ['v', '1'], 0⟩
    sourceSystem := ['s']
    recordHash := [] }

/-- The Bronze event of a CDC copy. -/
def SourceChange.cdcEvent (fns : SparkFunctions) (change : SourceChange K P)
    (tsMs partition offset : ℤ) : BronzeEvent K P where
  key := change.row.key
  createdAt := change.row.createdAt
  payload := change.row.payload
  operation := change.operation.operation
  eventOccurredAt := some (timestampMillis tsMs)
  eventId :=
    .text (concatWs [':'] [some ['t'], some (fns.castInt partition), some (fns.castInt offset)])
  batchId := ['q']
  isStreamingCdc := true
  sourceLsn := some change.lsn
  kafkaPartition := some partition
  kafkaOffset := some offset

/-- The place of a Batch copy in the sequence order. -/
theorem SourceChange.sequence_batchEvent (change : SourceChange K P) :
    change.batchEvent.sequence =
      [((change.occurredAt : ℤ) : WithBot ℤ), ((1 : ℤ) : WithBot ℤ), (change.eventId : WithBot ℤ),
        ((0 : ℤ) : WithBot ℤ)] := rfl

/-- The place of a CDC copy in the sequence order: the time of the envelope comes first. -/
theorem SourceChange.sequence_cdcEvent (fns : SparkFunctions) (change : SourceChange K P)
    (tsMs partition offset : ℤ) :
    (change.cdcEvent fns tsMs partition offset).sequence =
      [((timestampMillis tsMs : ℤ) : WithBot ℤ), ((2 : ℤ) : WithBot ℤ), (change.lsn : WithBot ℤ),
        (offset : WithBot ℤ)] := rfl

/-- What the CDC path makes of the record of a change. -/
theorem bronzeEvent_typedRow (fns : SparkFunctions) (change : SourceChange K P)
    (tsMs partition offset : ℤ) :
    (change.typedRow fns tsMs partition offset).bronzeEvent =
      some (change.cdcEvent fns tsMs partition offset) := by
  rcases change with ⟨row, operation, _, _, _, _⟩
  rcases operation with _ | _ | _ <;> rfl

namespace Copy

variable (fns : SparkFunctions) (x y : Copy K P)

/-- The event Silver merges. -/
def event : BronzeEvent K P :=
  match x.delivery with
  | .batch => x.change.batchEvent
  | .cdc tsMs partition offset => x.change.cdcEvent fns tsMs partition offset

/-- The primary key. -/
def key : K := x.change.row.key

/-- The copy as a piece of its own. -/
def piece : SilverPiece K P :=
  match x.delivery with
  | .batch => .batch [x.event fns]
  | .cdc _ _ _ => .cdc [x.event fns]

/-- A delete that comes by CDC; the merge drops it where the key has no row. -/
def isCdcDelete : Bool :=
  match x.delivery with
  | .batch => false
  | .cdc _ _ _ => x.change.operation = .delete

/-- A CDC delete is a delete with a Kafka offset. -/
theorem isCdcDelete_eq_isSome :
    x.isCdcDelete = (x.delivery.kafkaOffset.isSome && decide (x.change.operation = .delete)) := by
  rcases x with ⟨change, _ | _⟩ <;> rfl

/-- The event of a copy has its key. -/
@[simp] theorem key_event : (x.event fns).key = x.key := by
  rcases x with ⟨change, _ | _⟩ <;> rfl

/-- A copy is delivered the way its event says. -/
theorem isCdc_piece : (x.piece fns).isCdc = (x.event fns).isStreamingCdc := by
  rcases x with ⟨change, _ | _⟩ <;> rfl

/-- A copy as a piece is one event. -/
theorem events_piece : (x.piece fns).events = [x.event fns] := by
  rcases x with ⟨change, _ | _⟩ <;> rfl

/-- The event of a copy has the operation of the change. -/
@[simp] theorem operation_event : (x.event fns).operation = x.change.operation.operation := by
  rcases x with ⟨change, _ | _⟩ <;> rfl

/-- A copy is merged as a row that the merge would not insert just when it is a CDC delete. -/
theorem isCdcDelete_eq (clean : P → P) :
    ((x.event fns).isStreamingCdc && (mergedRow fns clean (x.event fns)).isDeleted) =
      x.isCdcDelete := by
  rcases x with ⟨⟨_, operation, _, _, _, _⟩, _ | _⟩
  · rfl
  · rcases operation with _ | _ | _ <;> rfl

end Copy

/-! ### Deliveries -/

variable [DecidableEq K] [DecidableEq P] (fns : SparkFunctions) (clean : P → P)

/-- A piece of delivered copies: a Batch increment has Batch copies, a CDC micro-batch CDC
copies. -/
def DeliveredFrom (copies : List (Copy K P)) (piece : SilverPiece K P) : Prop :=
  ∀ e ∈ piece.events, e.isStreamingCdc = piece.isCdc ∧ ∃ x ∈ copies, x.event fns = e

/-- **A CDC delete finds a row**: where a CDC micro-batch has a delete as its newest event of a key,
Silver has a row of the key. -/
def DeletesFindRows (table : List (SilverRow K P)) (piece : SilverPiece K P) : Prop :=
  ∀ k row,
    MergeInto.lookup (fun row ↦ row.key) k (transformTable fns clean piece.events) = some row →
      MergeInto.lookup (fun row ↦ row.key) k table = none →
        ¬(piece.isCdc && row.isDeleted) = true

/-- The row of its key carries the copy. -/
def RowCarries (table : List (SilverRow K P)) (x : Copy K P) : Prop :=
  ∃ row, MergeInto.lookup (fun row ↦ row.key) x.key table = some row ∧
    Carries clean row (x.event fns)

/-- **Silver holds the effect of a copy** that was delivered in some pieces: the row carries it, or
it is a delete and there is no row. -/
def HoldsEffect (pieces : List (SilverPiece K P)) (table : List (SilverRow K P)) (x : Copy K P) :
    Prop :=
  RowCarries fns clean table x ∨
    x.change.operation = .delete ∧ (∃ piece ∈ pieces, x.event fns ∈ piece.events) ∧
      MergeInto.lookup (fun row ↦ row.key) x.key table = none

/-- **Silver never goes back in source order**: however the copies are merged, as long as CDC
deletes find a row, once Silver holds the effect of a change no later merge puts an earlier change
in its place. -/
def NeverGoesBack (copies : List (Copy K P)) : Prop :=
  ∀ pieces more table table',
    (∀ piece ∈ pieces ++ more, DeliveredFrom fns copies piece) →
    Along (mergePiece fns clean) (DeletesFindRows fns clean) [] (pieces ++ more) →
    run (mergePiece fns clean) [] pieces = some table →
    run (mergePiece fns clean) table more = some table' →
    ∀ x ∈ copies, ∀ y ∈ copies, x.key = y.key → x.change.position < y.change.position →
      HoldsEffect fns clean pieces table y → ¬RowCarries fns clean table' x

/-- Silver can come to have a row that carries the copy: a CDC delete needs an older copy that makes
the row. -/
def CanBeHeld (copies : List (Copy K P)) (y : Copy K P) : Prop :=
  y.isCdcDelete = false ∨ ∃ z ∈ copies, z.key = y.key ∧ z.isCdcDelete = false ∧
    (z.event fns).sequence < (y.event fns).sequence

/-- **The sequences of the copies are in source order.** -/
def SequencesInSourceOrder (copies : List (Copy K P)) : Prop :=
  ∀ x ∈ copies, ∀ y ∈ copies, x.key = y.key → x.change.position < y.change.position →
    CanBeHeld fns copies y → (x.event fns).sequence < (y.event fns).sequence

/-- The numbers of the source and of Kafka identify the changes of a key: no two have one
`event_id`, and no two are stored at one offset. -/
structure Identified (copies : List (Copy K P)) : Prop where
  /-- `event_id` is a primary key. -/
  eventId : ∀ x ∈ copies, ∀ y ∈ copies, x.change.eventId = y.change.eventId → x.change = y.change
  /-- The changes of a key are in one partition, each at its own offset. -/
  offset : ∀ x ∈ copies, ∀ y ∈ copies, x.key = y.key → x.delivery.kafkaOffset.isSome = true →
    x.delivery.kafkaOffset = y.delivery.kafkaOffset → x.change = y.change

/-- The source numbers its changes in commit order, in `change_events` and in the log. -/
def LogsAgree (copies : List (Copy K P)) : Prop :=
  ∀ x ∈ copies, ∀ y ∈ copies, x.change.position < y.change.position →
    x.change.eventId < y.change.eventId ∧ x.change.lsn < y.change.lsn

/-! ### A merge raises the sequence of a row -/

section Mono

variable {fns clean} {table table' : List (SilverRow K P)} {pieces : List (SilverPiece K P)}
  {copies : List (Copy K P)}

omit [DecidableEq K] [DecidableEq P] in
/-- An empty table has distinct keys. -/
theorem nodup_key_nil : (([] : List (SilverRow K P)).map fun row ↦ row.key).Nodup :=
  List.nodup_nil

/-- **A run of merges keeps the keys distinct and only raises the sequence of a row.** -/
theorem run_mergePiece_mono (hkeys : (table.map fun row ↦ row.key).Nodup)
    (hrun : run (mergePiece fns clean) table pieces = some table') :
    (table'.map fun row ↦ row.key).Nodup ∧ ∀ k row,
      MergeInto.lookup (fun row ↦ row.key) k table = some row →
        ∃ row', MergeInto.lookup (fun row ↦ row.key) k table' = some row' ∧
          row.sequence ≤ row'.sequence := by
  refine run_invariant_of_step (fun reached ↦ (reached.map fun row ↦ row.key).Nodup ∧ ∀ k row,
    MergeInto.lookup (fun row ↦ row.key) k table = some row →
      ∃ row', MergeInto.lookup (fun row ↦ row.key) k reached = some row' ∧
        row.sequence ≤ row'.sequence) ?_ ⟨hkeys, fun k row h ↦ ⟨row, h, le_rfl⟩⟩ hrun
  rintro reached piece next ⟨hnodup, hmono⟩ hmerge
  obtain ⟨hnodup', hraised⟩ := mergePiece_mono hnodup hmerge
  refine ⟨hnodup', fun k row h ↦ ?_⟩
  obtain ⟨t, ht, hle⟩ := hmono k row h
  obtain ⟨t', ht', hle'⟩ := hraised k t ht
  exact ⟨t', ht', hle.trans hle'⟩

omit [DecidableEq P] in
/-- A piece has a row to merge for the key of each of its events. -/
theorem exists_lookup_transformTable (events : List (BronzeEvent K P)) {e : BronzeEvent K P}
    (he : e ∈ events) :
    ∃ s, MergeInto.lookup (fun row ↦ row.key) e.key (transformTable fns clean events) = some s := by
  rcases lookup_transformTable fns clean events e.key with ⟨-, hno⟩ | ⟨x, -, -, -, hsome⟩
  · exact absurd rfl (hno e he)
  · exact ⟨_, hsome⟩

/-- **What was merged has left a row**, where CDC deletes find one. -/
theorem exists_lookup_of_merged (hkeys : (table.map fun row ↦ row.key).Nodup)
    (hfind : Along (mergePiece fns clean) (DeletesFindRows fns clean) table pieces)
    (hrun : run (mergePiece fns clean) table pieces = some table') {piece : SilverPiece K P}
    (hpiece : piece ∈ pieces) {e : BronzeEvent K P} (he : e ∈ piece.events) :
    ∃ row, MergeInto.lookup (fun row ↦ row.key) e.key table' = some row := by
  induction pieces generalizing table with
  | nil => cases hpiece
  | cons first rest ih =>
    obtain ⟨table₁, hmerge, hrest⟩ := run_cons_eq_some.1 hrun
    obtain ⟨next, hmerge', hkeys₁, hlookup⟩ := lookup_mergePiece fns clean hkeys first
    obtain rfl : next = table₁ := Option.some.inj (hmerge'.symm.trans hmerge)
    rcases List.mem_cons.1 hpiece with rfl | hin
    · -- the piece itself leaves a row, and no later merge takes it away
      obtain ⟨s, hs⟩ := exists_lookup_transformTable piece.events he
      have hrow : ∃ row, MergeInto.lookup (fun row ↦ row.key) e.key next = some row := by
        rcases hheld : MergeInto.lookup (fun row ↦ row.key) e.key table with - | t
        · refine ⟨s, ?_⟩
          rw [hlookup, hs, hheld]
          exact if_neg (hfind.1 e.key s hs hheld)
        · obtain ⟨t', ht', -⟩ := mergeSilverRow_mono piece.isCdc t (some s)
          refine ⟨t', ?_⟩
          rw [hlookup, hs, hheld, ht']
      obtain ⟨row, hrow⟩ := hrow
      obtain ⟨row', hrow', -⟩ := (run_mergePiece_mono hkeys₁ hrest).2 e.key row hrow
      exact ⟨row', hrow'⟩
    · exact ih hkeys₁ (hfind.2 _ hmerge) hrest hin

/-- Every row was made by a copy that is no CDC delete. -/
theorem exists_copy_of_row (hdelivered : ∀ piece ∈ pieces, DeliveredFrom fns copies piece)
    (hrun : run (mergePiece fns clean) [] pieces = some table') {k : K} {row : SilverRow K P}
    (hrow : MergeInto.lookup (fun row ↦ row.key) k table' = some row) :
    ∃ z ∈ copies, z.key = k ∧ z.isCdcDelete = false ∧ (z.event fns).sequence ≤ row.sequence := by
  have hinv : (table'.map fun row ↦ row.key).Nodup ∧ ∀ k row,
      MergeInto.lookup (fun row ↦ row.key) k table' = some row →
        ∃ z ∈ copies, z.key = k ∧ z.isCdcDelete = false ∧
          (z.event fns).sequence ≤ row.sequence := by
    refine run_invariant (fun reached ↦ (reached.map fun row ↦ row.key).Nodup ∧ ∀ k row,
      MergeInto.lookup (fun row ↦ row.key) k reached = some row →
        ∃ z ∈ copies, z.key = k ∧ z.isCdcDelete = false ∧
          (z.event fns).sequence ≤ row.sequence) ?_
      ⟨nodup_key_nil, fun k row h ↦ by cases h⟩
      (along_of_forall (fun piece hpiece _ ↦ hdelivered piece hpiece) []) hrun
    rintro reached piece next ⟨hnodup, hmade⟩ hfrom hmerge
    obtain ⟨next', hmerge', hnodup', hlookup⟩ := lookup_mergePiece fns clean hnodup piece
    obtain rfl : next' = next := Option.some.inj (hmerge'.symm.trans hmerge)
    refine ⟨hnodup', fun k row h ↦ ?_⟩
    rw [hlookup] at h
    rcases hheld : MergeInto.lookup (fun row ↦ row.key) k reached with - | t
    · rw [hheld] at h
      rcases lookup_transformTable fns clean piece.events k with ⟨hnone, -⟩ | ⟨e, he, hk, -, hsome⟩
      · rw [hnone] at h
        cases h
      · rw [hsome] at h
        obtain ⟨hsoft, h⟩ := Option.ite_none_left_eq_some.1 h
        obtain ⟨hmode, z, hz, rfl⟩ := hfrom e he
        refine ⟨z, hz, (z.key_event fns).symm.trans hk, ?_, ?_⟩
        · rw [← hmode, Copy.isCdcDelete_eq] at hsoft
          exact Bool.eq_false_of_not_eq_true hsoft
        · rw [← Option.some.inj h, sequence_mergedRow]
    · obtain ⟨z, hz, hzk, hzd, hle⟩ := hmade k t hheld
      rw [hheld] at h
      obtain ⟨t', ht', hle'⟩ := mergeSilverRow_mono piece.isCdc t
        (MergeInto.lookup (fun row ↦ row.key) k (transformTable fns clean piece.events))
      obtain rfl := Option.some.inj (ht'.symm.trans h)
      exact ⟨z, hz, hzk, hzd, hle.trans hle'⟩
  exact hinv.2 k row hrow

omit [DecidableEq K] [DecidableEq P] in
/-- Copies with one sequence were delivered the same way: CDC copies at one Kafka offset, or Batch
copies with one `event_id`. -/
theorem delivery_of_sequence_eq {x y : Copy K P}
    (hseq : (x.event fns).sequence = (y.event fns).sequence) :
    x.delivery.kafkaOffset = y.delivery.kafkaOffset ∧
      (x.delivery.kafkaOffset = none → x.change.eventId = y.change.eventId) := by
  obtain ⟨a, da⟩ := x
  obtain ⟨b, db⟩ := y
  rcases da with - | ⟨ts, p, offset⟩ <;> rcases db with - | ⟨ts', p', offset'⟩ <;>
    simp only [Copy.event, SourceChange.sequence_batchEvent, SourceChange.sequence_cdcEvent,
      List.cons.injEq, WithBot.coe_inj] at hseq
  · exact ⟨rfl, fun _ ↦ hseq.2.2.1⟩
  · -- Batch and CDC have different priorities
    omega
  · omega
  · obtain ⟨-, -, -, rfl, -⟩ := hseq
    exact ⟨rfl, fun h ↦ by cases h⟩

omit [DecidableEq K] [DecidableEq P] in
/-- Copies of different changes of a key have different sequences. -/
theorem change_eq_of_sequence_eq (hids : Identified copies) {x y : Copy K P} (hx : x ∈ copies)
    (hy : y ∈ copies) (hkey : x.key = y.key)
    (hseq : (x.event fns).sequence = (y.event fns).sequence) : x.change = y.change := by
  obtain ⟨hoffset, heventId⟩ := delivery_of_sequence_eq hseq
  cases hdelivery : x.delivery.kafkaOffset with
  | none => exact hids.eventId x hx y hy (heventId hdelivery)
  | some offset => exact hids.offset x hx y hy hkey (by rw [hdelivery]; rfl) hoffset

omit [DecidableEq K] [DecidableEq P] in
/-- Copies with one sequence are delivered the same way, so they are both CDC deletes or both
not. -/
theorem isCdcDelete_eq_of_sequence_eq (hids : Identified copies) {x y : Copy K P} (hx : x ∈ copies)
    (hy : y ∈ copies) (hkey : x.key = y.key)
    (hseq : (x.event fns).sequence = (y.event fns).sequence) : x.isCdcDelete = y.isCdcDelete := by
  rw [Copy.isCdcDelete_eq_isSome, Copy.isCdcDelete_eq_isSome,
    change_eq_of_sequence_eq hids hx hy hkey hseq, (delivery_of_sequence_eq hseq).1]

/-- **Where the sequences are in source order, Silver never goes back.** -/
theorem neverGoesBack_of_sequences (hids : Identified copies)
    (horder : SequencesInSourceOrder fns copies) : NeverGoesBack fns clean copies := by
  intro pieces more table table' hdelivered hfind hrun hmore x hx y hy hkey hpos hholds
  have hkeys := (run_mergePiece_mono nodup_key_nil hrun).1
  rcases hholds with ⟨row, hrow, hcarries⟩ | ⟨-, ⟨piece, hpiece, hin⟩, hnone⟩
  · rintro ⟨row', hrow', hcarries'⟩
    -- the row was made by a copy that is no CDC delete, the copy itself or an older one
    have hheld : CanBeHeld fns copies y := by
      obtain ⟨z, hz, hzk, hzd, hle⟩ := exists_copy_of_row
        (fun piece hpiece ↦ hdelivered piece (List.mem_append_left more hpiece)) hrun hrow
      rcases Bool.eq_false_or_eq_true y.isCdcDelete with hdelete | hno
      · refine Or.inr ⟨z, hz, hzk, hzd, lt_of_le_of_ne (hcarries.sequence ▸ hle) fun heq ↦ ?_⟩
        exact absurd (isCdcDelete_eq_of_sequence_eq hids hz hy hzk heq) (by rw [hzd, hdelete]; simp)
      · exact Or.inl hno
    obtain ⟨last, hlast, hle⟩ := (run_mergePiece_mono hkeys hmore).2 y.key row hrow
    rw [← hkey, hrow'] at hlast
    rw [← Option.some.inj hlast, hcarries'.sequence, hcarries.sequence] at hle
    exact absurd (horder x hx y hy hkey hpos hheld) hle.not_gt
  · -- what was merged has left a row
    obtain ⟨row, hrow⟩ := exists_lookup_of_merged nodup_key_nil hfind.of_append hrun hpiece hin
    rw [y.key_event] at hrow
    rw [hrow] at hnone
    cases hnone

/-! ### Deliveries that go back -/

omit [DecidableEq P] in
/-- What a piece of one copy merges. -/
theorem lookup_transformTable_piece (x : Copy K P) (k : K) :
    MergeInto.lookup (fun row ↦ row.key) k (transformTable fns clean (x.piece fns).events) =
      if x.key = k then some (mergedRow fns clean (x.event fns)) else none := by
  rw [x.events_piece]
  rcases lookup_transformTable fns clean [x.event fns] k with ⟨hnone, hno⟩ | ⟨e, he, hk, -, hsome⟩
  · have hne := hno _ (List.mem_singleton.2 rfl)
    rw [x.key_event] at hne
    rw [hnone, if_neg hne]
  · obtain rfl := List.mem_singleton.1 he
    rw [x.key_event] at hk
    rw [hsome, if_pos hk]

/-- **A copy takes over the row** of its key when there is none, unless it is a CDC delete, and when
the row carries a copy with a lower sequence. -/
theorem exists_mergePiece_copy (hkeys : (table.map fun row ↦ row.key).Nodup) (x : Copy K P)
    (h : MergeInto.lookup (fun row ↦ row.key) x.key table = none ∧ x.isCdcDelete = false ∨
      ∃ y : Copy K P, y.key = x.key ∧ RowCarries fns clean table y ∧
        (y.event fns).sequence < (x.event fns).sequence) :
    ∃ table', mergePiece fns clean table (x.piece fns) = some table' ∧
      (table'.map fun row ↦ row.key).Nodup ∧ RowCarries fns clean table' x ∧
      DeletesFindRows fns clean table (x.piece fns) := by
  obtain ⟨table', hmerge, hkeys', hlookup⟩ := lookup_mergePiece fns clean hkeys (x.piece fns)
  have hsource : ∀ k, MergeInto.lookup (fun row ↦ row.key) k
      (transformTable fns clean (x.piece fns).events) =
        if x.key = k then some (mergedRow fns clean (x.event fns)) else none :=
    lookup_transformTable_piece x
  have hx := hlookup x.key
  rw [hsource, if_pos rfl] at hx
  refine ⟨table', hmerge, hkeys', ?_, ?_⟩
  · rcases h with ⟨hnone, hno⟩ | ⟨y, hkey, ⟨row, hrow, hcarries⟩, hlt⟩
    · rw [hnone] at hx
      refine ⟨_, hx.trans (if_neg ?_), carries_mergedRow fns clean _⟩
      rw [x.isCdc_piece, x.isCdcDelete_eq, hno]
      exact Bool.false_ne_true
    · rw [hkey] at hrow
      have hholds : Holds clean
          (mergeSilverRow (x.piece fns).isCdc (some row) (some (mergedRow fns clean (x.event fns))))
          (writeEvent (x.piece fns).isCdc (some (y.event fns)) (x.event fns)) :=
        holds_mergeSilverRow fns clean (show Holds clean (some row) (some _) from hcarries)
          fun t ht ↦ by
            rw [← Option.some.inj ht, hcarries.key, y.key_event, x.key_event, hkey]
      rw [writeEvent, LastWriterWins.write_of_lt hlt, ← hrow, ← hx] at hholds
      rcases hnew : MergeInto.lookup (fun row ↦ row.key) x.key table' with - | row'
      · rw [hnew] at hholds
        exact hholds.elim
      · rw [hnew] at hholds
        exact ⟨row', hnew, hholds⟩
  · intro k row hrow hnone
    rw [hsource] at hrow
    obtain ⟨rfl, hmerged⟩ := Option.ite_none_right_eq_some.1 hrow
    rcases h with ⟨-, hno⟩ | ⟨y, hkey, ⟨held, hheld, -⟩, -⟩
    · rw [← Option.some.inj hmerged, x.isCdc_piece, x.isCdcDelete_eq, hno]
      exact Bool.false_ne_true
    · rw [hkey, hnone] at hheld
      cases hheld

variable (fns clean) in
/-- The first copy of a key makes its row. -/
theorem exists_mergePiece_first (x : Copy K P) (hno : x.isCdcDelete = false) :
    ∃ table, mergePiece fns clean [] (x.piece fns) = some table ∧
      (table.map fun row ↦ row.key).Nodup ∧ RowCarries fns clean table x ∧
      DeletesFindRows fns clean [] (x.piece fns) :=
  exists_mergePiece_copy nodup_key_nil x (Or.inl ⟨rfl, hno⟩)

omit [DecidableEq K] [DecidableEq P] in
/-- A copy as a piece is a delivery. -/
theorem deliveredFrom_piece {x : Copy K P} (hx : x ∈ copies) :
    DeliveredFrom fns copies (x.piece fns) := by
  intro e he
  rw [x.events_piece, List.mem_singleton] at he
  subst he
  exact ⟨(x.isCdc_piece fns).symm, x, hx, rfl⟩

/-- A run of one piece after another. -/
theorem run_pair {piece : SilverPiece K P} {table₁ : List (SilverRow K P)}
    (h : mergePiece fns clean table piece = some table₁) :
    run (mergePiece fns clean) table [piece] = some table₁ := by
  rw [run, h]
  rfl

/-- **Where Silver never goes back, the sequences are in source order**: two copies that are not can
be delivered newer change first. -/
theorem sequences_of_neverGoesBack (hids : Identified copies)
    (hnever : NeverGoesBack fns clean copies) : SequencesInSourceOrder fns copies := by
  intro x hx y hy hkey hpos hheld
  by_contra hnot
  have hne : (y.event fns).sequence ≠ (x.event fns).sequence := fun heq ↦ by
    rw [change_eq_of_sequence_eq hids hy hx hkey.symm heq] at hpos
    omega
  have hback : (y.event fns).sequence < (x.event fns).sequence := lt_of_le_of_ne (not_lt.1 hnot) hne
  -- first a delivery after which the row carries `y`
  obtain ⟨pieces, table, hdelivered, hfind, hrun, hcarries⟩ :
      ∃ pieces table, (∀ piece ∈ pieces, DeliveredFrom fns copies piece) ∧
        Along (mergePiece fns clean) (DeletesFindRows fns clean) [] pieces ∧
        run (mergePiece fns clean) [] pieces = some table ∧ RowCarries fns clean table y := by
    rcases hheld with hno | ⟨z, hz, hzk, hzd, hlt⟩
    · obtain ⟨table, hmerge, -, hcarries, hfind⟩ := exists_mergePiece_first fns clean y hno
      exact ⟨[y.piece fns], table, by simpa using deliveredFrom_piece hy,
        ⟨hfind, fun _ _ ↦ trivial⟩, run_pair hmerge, hcarries⟩
    · obtain ⟨table₁, hmerge₁, hkeys₁, hcarries₁, hfind₁⟩ :=
        exists_mergePiece_first fns clean z hzd
      obtain ⟨table, hmerge, -, hcarries, hfind⟩ :=
        exists_mergePiece_copy hkeys₁ y (Or.inr ⟨z, hzk, hcarries₁, hlt⟩)
      refine ⟨[z.piece fns, y.piece fns], table, ?_, ⟨hfind₁, fun t ht ↦ ?_⟩, ?_, hcarries⟩
      · simpa using ⟨deliveredFrom_piece hz, deliveredFrom_piece hy⟩
      · obtain rfl := Option.some.inj (hmerge₁.symm.trans ht)
        exact ⟨hfind, fun _ _ ↦ trivial⟩
      · rw [run, hmerge₁]
        exact run_pair hmerge
  -- then `x`, which takes the row over
  have hkeys := (run_mergePiece_mono nodup_key_nil hrun).1
  obtain ⟨table', hmerge, -, hcarries', hfind'⟩ :=
    exists_mergePiece_copy hkeys x (Or.inr ⟨y, hkey.symm, hcarries, hback⟩)
  refine hnever pieces [x.piece fns] table table' ?_ ?_ hrun (run_pair hmerge) x hx y hy hkey hpos
    (Or.inl hcarries) hcarries'
  · intro piece hpiece
    rcases List.mem_append.1 hpiece with hold | hlast
    · exact hdelivered piece hold
    · rw [List.mem_singleton.1 hlast]
      exact deliveredFrom_piece hx
  · exact hfind.append hrun ⟨hfind', fun _ _ ↦ trivial⟩

end Mono

/-- **Silver and source order.** Whatever is delivered by Batch, by CDC or by both: Silver never
goes back in source order, under any delivery in which CDC deletes find a row, if and only if the
sequences of the copies are in source order, those of CDC deletes that can never be held apart. -/
theorem neverGoesBack_iff (fns : SparkFunctions) (clean : P → P) (copies : List (Copy K P))
    (hids : Identified copies) :
    NeverGoesBack fns clean copies ↔ SequencesInSourceOrder fns copies :=
  ⟨sequences_of_neverGoesBack hids, neverGoesBack_of_sequences hids⟩

/-! ### A late copy -/

/-- The first change of key 7 sets it to 100, at time 10. -/
def firstChange : SourceChange ℤ ℤ where
  row := ⟨7, 0, 100⟩
  operation := .insert
  position := 0
  eventId := 1
  occurredAt := 10000
  lsn := 1

/-- The second one sets it to 200, at time 20. -/
def secondChange : SourceChange ℤ ℤ where
  row := ⟨7, 0, 200⟩
  operation := .update
  position := 1
  eventId := 2
  occurredAt := 20000
  lsn := 2

/-- Both changes by CDC and by Batch, the CDC copies without delay. -/
def promptCopies : List (Copy ℤ ℤ) :=
  [⟨firstChange, .batch⟩, ⟨firstChange, .cdc 10 0 0⟩, ⟨secondChange, .batch⟩,
    ⟨secondChange, .cdc 20 0 1⟩]

instance (copies : List (Copy ℤ ℤ)) (y : Copy ℤ ℤ) : Decidable (CanBeHeld .plain copies y) :=
  inferInstanceAs (Decidable (_ ∨ ∃ z ∈ copies, _ ∧ _ ∧ _))

instance (copies : List (Copy ℤ ℤ)) : Decidable (SequencesInSourceOrder .plain copies) :=
  inferInstanceAs (Decidable (∀ x ∈ copies, ∀ y ∈ copies, _ → _ → _ → _))

/-- Without delay the copies of both paths are in source order. -/
theorem neverGoesBack_iff_promptCopies : NeverGoesBack .plain id promptCopies :=
  (neverGoesBack_iff .plain id promptCopies ⟨by decide, by decide⟩).2 (by decide)

/-- The first change by CDC, emitted late, at time 50, and the second one by Batch. -/
def lateCopies : List (Copy ℤ ℤ) :=
  [⟨firstChange, .cdc 50 0 0⟩, ⟨secondChange, .batch⟩]

/-- **Silver goes back**: it holds the second change by Batch, and the late CDC copy of the first
change takes its place. -/
theorem silver_goesBack :
    ¬∀ (fns : SparkFunctions) (clean : ℤ → ℤ) (copies : List (Copy ℤ ℤ)), Identified copies →
      LogsAgree copies → NeverGoesBack fns clean copies := by
  intro hnever
  have hids : Identified lateCopies := ⟨by decide, by decide⟩
  have hlogs : LogsAgree lateCopies := by
    show ∀ x ∈ lateCopies, ∀ y ∈ lateCopies, _ → _ ∧ _
    decide
  exact absurd
    (sequences_of_neverGoesBack hids (hnever .plain id lateCopies hids hlogs)) (by decide)

end LakehousePipeline
