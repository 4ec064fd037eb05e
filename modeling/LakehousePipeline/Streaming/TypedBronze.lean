import LakehousePipeline.Library.Runs
import LakehousePipeline.Library.TransactionalAppend
import LakehousePipeline.Silver.Lake

/-!
# Typed Bronze

`TypedBronzeMaterializer` decodes the valid raw CDC rows of a micro-batch, appends them to one table
per source table, and hands Silver what it reads back from these tables under the label of the
micro-batch. The append carries the number of the micro-batch as its Delta transaction version, so a
micro-batch that is retried appends once.

## What a number stands for

Structured Streaming gives a micro-batch a number and fixes its contents until it is committed, so
within one checkpoint a number stands for its contents and the hand-off is exact, whatever fails in
between (`materialize_exact_of_no_reset`). `make unified-state-reset` deletes the checkpoint and
keeps typed Bronze under the same `checkpoint_version`: the numbers start again at 0, over a raw log
that may be cut differently, while typed Bronze still has the rows of the old cut under them. The
append is then skipped, and Silver is handed the old rows (`materialize_loses_event`).

`_ensure_physical_tables` creates the tables empty, under transaction ids of their own, so a table
that does not exist yet is an empty one here.
-/

namespace LakehousePipeline

open Runs

/-! ### Decoding -/

/-- The columns of a raw CDC row that typed Bronze takes over as they are. -/
structure CdcTransport where
  /-- `_transport_event_id`. -/
  transportEventId : Option Text
  /-- `event_timestamp`. -/
  eventTimestamp : Option Timestamp
  /-- `source_lsn`. -/
  sourceLsn : Option ℤ
  /-- `source_tx_id`. -/
  sourceTxId : Option ℤ
  /-- `transaction_id`. -/
  transactionId : Option Text
  /-- `transaction_order`. -/
  transactionOrder : Option ℤ
  /-- `collection_order`. -/
  collectionOrder : Option ℤ
  /-- `topic`. -/
  topic : Text
  /-- `partition`. -/
  partition : ℤ
  /-- `offset`. -/
  offset : ℤ
  /-- `ingested_at`. -/
  ingestedAt : Timestamp
  /-- `source_schema`. -/
  sourceSchema : Option Text
  /-- `source_table`. -/
  sourceTable : Option Text
  deriving DecidableEq

/-- `_payload_map`. -/
abbrev PayloadMap := List (Text × Option Text)

/-- A row of `prepare_raw_cdc_events`. -/
structure PreparedEvent where
  /-- The transport columns. -/
  transport : CdcTransport
  /-- `operation`. -/
  operation : Option Text
  /-- `_payload_map`. -/
  payload : PayloadMap
  /-- `_decode_error`. -/
  decodeError : Option Text
  deriving DecidableEq

/-- The label `f"{query_name}:{checkpoint_version}:{batch_id}"`, by its parts: the version has no
colon and the number only digits, so labels agree when their parts do. -/
structure BatchKey where
  queryName : Text
  checkpointVersion : Text
  batchId : ℕ
  deriving DecidableEq

/-- A row of a typed Bronze table with business columns in `C`. `_ingestion_type` and the schema
version are constants. -/
structure TypedCdcRow (C : Type) where
  /-- The business columns. -/
  columns : C
  /-- The transport columns. -/
  transport : CdcTransport
  /-- `_operation`. -/
  operation : Option Operation
  /-- `_batch_id`. -/
  batchKey : BatchKey
  /-- `_source_system`. -/
  sourceSystem : Text
  /-- `_record_hash`. -/
  recordHash : Text
  deriving DecidableEq

/-- `TypedCdcTableContract`: the cast of a payload to the business columns, in a time zone, and
their rendering as JSON. -/
structure TypedCdcContract (C : Type) where
  /-- `_typed_payload_value` of every field of `payload_schema`. -/
  typedPayload : Text → PayloadMap → C
  /-- `to_json` of the business columns. -/
  recordJson : C → Text

/-- The settings of the unified Silver query. -/
structure SilverStreamSettings where
  /-- `query_name`. -/
  queryName : Text
  /-- `checkpoint_version`. -/
  checkpointVersion : Text
  /-- `source_system`. -/
  sourceSystem : Text
  /-- `timezone`. -/
  timezone : Text

/-- The label of a micro-batch. -/
def SilverStreamSettings.batchKey (settings : SilverStreamSettings) (batchId : ℕ) : BatchKey :=
  ⟨settings.queryName, settings.checkpointVersion, batchId⟩

/-- The operation of a typed row: `r` and `c` are inserts. -/
def decodeOperation (operation : Option Text) : Option Operation :=
  if operation = some ['r'] ∨ operation = some ['c'] then some .insert
  else if operation = some ['u'] then some .update
  else if operation = some ['d'] then some .delete
  else none

section Materialize

variable {C : Type} (fns : SparkFunctions) (settings : SilverStreamSettings)
  (contracts : SilverTable → TypedCdcContract C)

/-- `decode_table_events`, row by row. -/
def decodeTableEvent (contract : TypedCdcContract C) (batchId : ℕ) (event : PreparedEvent) :
    TypedCdcRow C where
  columns := contract.typedPayload settings.timezone event.payload
  transport := event.transport
  operation := decodeOperation event.operation
  batchKey := settings.batchKey batchId
  sourceSystem := settings.sourceSystem
  recordHash := fns.sha256
    (contract.recordJson (contract.typedPayload settings.timezone event.payload))

/-- The rows of a table without a decode error. -/
def validEvents (t : SilverTable) (prepared : List PreparedEvent) : List PreparedEvent :=
  prepared.filter fun event ↦
    event.transport.sourceTable = some t.name ∧ event.decodeError = none

/-- The decoded valid rows of a table. -/
def decodedRows (t : SilverTable) (batchId : ℕ) (prepared : List PreparedEvent) :
    List (TypedCdcRow C) :=
  (validEvents t prepared).map (decodeTableEvent fns settings (contracts t) batchId)

/-- A row of `table_statistics`. -/
structure TableStatistics where
  /-- `record_count`. -/
  recordCount : ℕ
  /-- `min_source_lsn`. -/
  minSourceLsn : Option ℤ
  /-- `max_source_lsn`. -/
  maxSourceLsn : Option ℤ
  deriving DecidableEq

/-- `table_statistics`: there is a row for a table with a valid event. -/
def tableStatistics (prepared : List PreparedEvent) (t : SilverTable) : Option TableStatistics :=
  let lsns := (validEvents t prepared).filterMap fun event ↦ event.transport.sourceLsn
  if validEvents t prepared = [] then none
  else some ⟨(validEvents t prepared).length, lsns.min?, lsns.max?⟩

/-- `txnAppId`: `f"{query_name}-{checkpoint_version}-typed-{application_suffix}"`, by its parts. -/
structure TypedAppId where
  queryName : Text
  checkpointVersion : Text
  suffix : Text
  deriving DecidableEq

/-- The transaction id of the appends to a table. -/
def SilverStreamSettings.appId (settings : SilverStreamSettings) (suffix : Text) : TypedAppId :=
  ⟨settings.queryName, settings.checkpointVersion, suffix⟩

/-- A row of the quarantine table. -/
structure QuarantineRow where
  /-- The raw columns. -/
  transport : CdcTransport
  /-- `operation`. -/
  operation : Option Text
  /-- `_quarantine_reason`. -/
  reason : Text
  /-- `_batch_id`. -/
  batchKey : BatchKey
  deriving DecidableEq

/-- Typed Bronze. -/
structure TypedBronze (C : Type) where
  /-- The tables of typed rows. -/
  tables : SilverTable → TxnTable (TypedCdcRow C) TypedAppId
  /-- The quarantine table. -/
  quarantine : TxnTable QuarantineRow TypedAppId

/-- `MaterializedTypedBatch`. -/
structure MaterializedTypedBatch (C : Type) where
  /-- The rows of each changed table. -/
  tables : SilverTable → Option (List (TypedCdcRow C))
  /-- The statistics of each changed table. -/
  statistics : SilverTable → Option TableStatistics
  /-- How many rows were quarantined. -/
  quarantinedCount : ℕ

/-- `_quarantine_rows`. -/
def quarantineRows (batchId : ℕ) (prepared : List PreparedEvent) : List QuarantineRow :=
  prepared.filterMap fun event ↦ event.decodeError.map fun reason ↦
    ⟨event.transport, event.operation, reason, settings.batchKey batchId⟩

/-- `_write_quarantine`: no commit for no rows. -/
def writeQuarantine (batchId : ℕ) (prepared : List PreparedEvent) (bronze : TypedBronze C) :
    TypedBronze C :=
  let rows := quarantineRows settings batchId prepared
  if rows = [] then bronze
  else
    { bronze with
      quarantine := bronze.quarantine.append (settings.appId "quarantine".toList) batchId rows }

/-- The typed rows a micro-batch puts into a table. -/
def appendTable (batchId : ℕ) (prepared : List PreparedEvent) (t : SilverTable)
    (table : TxnTable (TypedCdcRow C) TypedAppId) : TxnTable (TypedCdcRow C) TypedAppId :=
  if (tableStatistics prepared t).isSome then
    table.append (settings.appId t.name) batchId (decodedRows fns settings contracts t batchId
      prepared)
  else table

/-- What an attempt to materialize a micro-batch has committed when it fails. The appends of the
tables run in parallel. -/
structure Written where
  /-- The quarantine append. -/
  quarantine : Bool
  /-- The appends of the tables. -/
  table : SilverTable → Bool

/-- The appends of an attempt, as far as it gets. -/
def writeAppends (written : Written) (batchId : ℕ) (prepared : List PreparedEvent)
    (bronze : TypedBronze C) : TypedBronze C :=
  let bronze := if written.quarantine then writeQuarantine settings batchId prepared bronze
    else bronze
  { bronze with tables := fun t ↦
      if written.table t then
        appendTable fns settings contracts batchId prepared t (bronze.tables t)
      else bronze.tables t }

/-- **`materialize`**: all appends, and what is then read under the label of the micro-batch. -/
def materialize (batchId : ℕ) (prepared : List PreparedEvent) (bronze : TypedBronze C) :
    TypedBronze C × MaterializedTypedBatch C :=
  let bronze := writeAppends fns settings contracts ⟨true, fun _ ↦ true⟩ batchId prepared bronze
  (bronze,
    { tables := fun t ↦ if (tableStatistics prepared t).isSome then
        some ((bronze.tables t).rows.filter fun row ↦ row.batchKey = settings.batchKey batchId)
        else none
      statistics := tableStatistics prepared
      quarantinedCount := (quarantineRows settings batchId prepared).length })

/-! ### The streaming query -/

/-- The raw log, typed Bronze and the checkpoint of the query. -/
structure TypedStream (C : Type) where
  /-- Raw CDC Bronze, in the order the query reads it. -/
  rawLog : List PreparedEvent
  /-- Typed Bronze. -/
  bronze : TypedBronze C
  /-- How many raw rows the committed micro-batches have read. -/
  committed : ℕ
  /-- The number of the next micro-batch. -/
  nextBatch : ℕ
  /-- How many raw rows the checkpoint gives the next micro-batch, once it is planned. -/
  planned : Option ℕ
  /-- Whether the planned micro-batch was processed. -/
  returned : Bool

/-- The rows of a planned micro-batch. -/
def TypedStream.microBatch (s : TypedStream C) (size : ℕ) : List PreparedEvent :=
  (s.rawLog.drop s.committed).take size

/-- What can happen next. -/
inductive TypedStreamAction
  /-- Raw rows arrive. -/
  | arrive (events : List PreparedEvent)
  /-- The next micro-batch is planned, over so many raw rows. -/
  | plan (size : ℕ)
  /-- An attempt fails with some of its appends committed. -/
  | fail (written : Written)
  /-- An attempt returns. -/
  | finish
  /-- The micro-batch is committed to the checkpoint. -/
  | commit
  /-- `make unified-state-reset`. -/
  | reset

/-- **One step of the query.** What `plan` has fixed stays until the micro-batch is committed; a
restarted query plans it no second time. -/
def typedStreamStep (s : TypedStream C) : TypedStreamAction → Option (TypedStream C)
  | .arrive events => some { s with rawLog := s.rawLog ++ events }
  | .plan size =>
    if s.planned = none ∧ s.committed + size ≤ s.rawLog.length then
      some { s with planned := some size, returned := false }
    else none
  | .fail written => s.planned.map fun size ↦
      { s with
        bronze := writeAppends fns settings contracts written s.nextBatch (s.microBatch size)
          s.bronze
        returned := false }
  | .finish => s.planned.map fun size ↦
      { s with
        bronze := (materialize fns settings contracts s.nextBatch (s.microBatch size) s.bronze).1
        returned := true }
  | .commit => s.planned.bind fun size ↦
      if s.returned then
        some { s with
          committed := s.committed + size, nextBatch := s.nextBatch + 1, planned := none
          returned := false }
      else none
  | .reset => some { s with committed := 0, nextBatch := 0, planned := none, returned := false }

/-- Nothing has arrived yet. -/
def typedStreamStart : TypedStream C where
  rawLog := []
  bronze := ⟨fun _ ↦ .empty, .empty⟩
  committed := 0
  nextBatch := 0
  planned := none
  returned := false

/-- **The hand-off is exact**: of each table with valid rows its decoded valid rows, each once, and
of the other tables nothing. -/
def ExactHandOff (batch : MaterializedTypedBatch C) (batchId : ℕ) (prepared : List PreparedEvent) :
    Prop :=
  ∀ t, if validEvents t prepared = [] then batch.tables t = none
    else ∃ rows, batch.tables t = some rows ∧
      rows.Perm (decodedRows fns settings contracts t batchId prepared)

/-- **The number of a micro-batch stands for its rows**: a table that has recorded the number, or a
higher one, has under it the decoded rows of this micro-batch. -/
def NumberStandsFor (bronze : TypedBronze C) (batchId : ℕ) (prepared : List PreparedEvent) : Prop :=
  ∀ t, validEvents t prepared ≠ [] →
    (bronze.tables t).covers (settings.appId t.name) batchId = true →
    ((bronze.tables t).rows.filter fun row ↦ row.batchKey = settings.batchKey batchId).Perm
      (decodedRows fns settings contracts t batchId prepared)

end Materialize

section Lemmas

variable {C : Type} {fns : SparkFunctions} {settings : SilverStreamSettings}
  {contracts : SilverTable → TypedCdcContract C} {batchId : ℕ} {prepared : List PreparedEvent}
  {bronze : TypedBronze C} {t : SilverTable}

/-- The transaction a row was appended with, from its label. -/
def typedStamp (t : SilverTable) (row : TypedCdcRow C) : TypedAppId × ℕ :=
  (⟨row.batchKey.queryName, row.batchKey.checkpointVersion, t.name⟩, row.batchKey.batchId)

/-- The rows under a label are the rows of its transaction. -/
theorem filter_batchKey (table : TxnTable (TypedCdcRow C) TypedAppId) :
    (table.rows.filter fun row ↦ row.batchKey = settings.batchKey batchId) =
      table.rowsOf (typedStamp t) (settings.appId t.name) batchId := by
  refine List.filter_congr fun row _ ↦ ?_
  rw [decide_eq_decide]
  obtain ⟨_, _, _, ⟨name, version, number⟩, _, _⟩ := row
  simp [typedStamp, SilverStreamSettings.appId, SilverStreamSettings.batchKey, and_assoc]

/-- Decoded rows are labelled with the transaction they are appended with. -/
theorem stamp_decodedRows : ∀ row ∈ decodedRows fns settings contracts t batchId prepared,
    typedStamp t row = (settings.appId t.name, batchId) := by
  intro row hrow
  obtain ⟨event, -, rfl⟩ := List.mem_map.1 hrow
  rfl

/-- A table takes part in a micro-batch if it has valid rows. -/
theorem isSome_tableStatistics :
    (tableStatistics prepared t).isSome = true ↔ validEvents t prepared ≠ [] := by
  rw [tableStatistics]
  split <;> simp_all

/-! ### One table at a time -/

/-- Quarantine leaves the typed tables. -/
theorem tables_writeQuarantine :
    (writeQuarantine settings batchId prepared bronze).tables = bronze.tables := by
  rw [writeQuarantine]
  split <;> rfl

/-- Each table is appended to once, if the attempt gets there. -/
theorem tables_writeAppends (written : Written) :
    (writeAppends fns settings contracts written batchId prepared bronze).tables t =
      if written.table t then
        appendTable fns settings contracts batchId prepared t (bronze.tables t)
      else bronze.tables t := by
  have htables : ∀ b : Bool, (if b then writeQuarantine settings batchId prepared bronze
      else bronze).tables = bronze.tables := by
    intro b
    cases b
    · rfl
    · exact tables_writeQuarantine
  show (if written.table t then appendTable fns settings contracts batchId prepared t _ else _) = _
  rw [htables]

/-- An append keeps the labels. -/
theorem stamped_appendTable {table : TxnTable (TypedCdcRow C) TypedAppId}
    (h : table.Stamped (typedStamp t)) :
    (appendTable fns settings contracts batchId prepared t table).Stamped (typedStamp t) := by
  rw [appendTable]
  split
  · exact h.append stamp_decodedRows
  · exact h

/-- **What is read back from a table after the append**: the decoded rows if the number is new to
the table, and else what the table has under it. -/
theorem rowsOf_appendTable {table : TxnTable (TypedCdcRow C) TypedAppId}
    (h : table.Stamped (typedStamp t)) (hvalid : validEvents t prepared ≠ []) :
    (appendTable fns settings contracts batchId prepared t table).rowsOf (typedStamp t)
        (settings.appId t.name) batchId =
      if table.covers (settings.appId t.name) batchId then
        table.rowsOf (typedStamp t) (settings.appId t.name) batchId
      else decodedRows fns settings contracts t batchId prepared := by
  rw [appendTable, if_pos (isSome_tableStatistics.2 hvalid)]
  split
  · rename_i hcov
    rw [TxnTable.append_of_covers hcov]
  · rename_i hcov
    exact h.rowsOf_append stamp_decodedRows hcov

/-- Typed Bronze has rows under the transactions they were appended with. -/
def TypedBronze.Stamped (bronze : TypedBronze C) : Prop :=
  ∀ t, (bronze.tables t).Stamped (typedStamp t)

/-- **The hand-off is exact where the number stands for the rows, and only there.** -/
theorem exactHandOff_iff (h : bronze.Stamped) :
    ExactHandOff fns settings contracts
        (materialize fns settings contracts batchId prepared bronze).2 batchId prepared ↔
      NumberStandsFor fns settings contracts bronze batchId prepared := by
  refine forall_congr' fun t ↦ ?_
  have hback : (materialize fns settings contracts batchId prepared bronze).2.tables t =
      if (tableStatistics prepared t).isSome then
        some ((appendTable fns settings contracts batchId prepared t
          (bronze.tables t)).rowsOf (typedStamp t) (settings.appId t.name) batchId)
      else none := by
    rw [← filter_batchKey]
    show (if (tableStatistics prepared t).isSome then
      some (((writeAppends fns settings contracts _ batchId prepared bronze).tables t).rows.filter
        _)
      else none) = _
    rw [tables_writeAppends]
    rfl
  split
  · rename_i hnone
    have hstat : ¬(tableStatistics prepared t).isSome = true :=
      fun hsome ↦ isSome_tableStatistics.1 hsome hnone
    rw [hback, if_neg hstat]
    exact iff_of_true rfl fun hsome ↦ absurd hnone hsome
  · rename_i hvalid
    rw [hback, if_pos (isSome_tableStatistics.2 hvalid), rowsOf_appendTable (h t) hvalid]
    simp only [Option.some.injEq, exists_eq_left']
    rw [filter_batchKey]
    split
    · rename_i hcov
      exact ⟨fun hperm _ _ ↦ hperm, fun hstands ↦ hstands hvalid hcov⟩
    · rename_i hcov
      exact iff_of_true (List.Perm.refl _) fun _ hcovers ↦ absurd hcovers hcov

/-! ### Runs -/

variable {s s' : TypedStream C} {a : TypedStreamAction}

/-- **What a step does to typed Bronze**: nothing, or the appends of an attempt at the planned
micro-batch, as far as it got. -/
theorem bronze_of_typedStreamStep (h : typedStreamStep fns settings contracts s a = some s') :
    s'.bronze = s.bronze ∨ ∃ size written, s.planned = some size ∧ s'.bronze =
      writeAppends fns settings contracts written s.nextBatch (s.microBatch size) s.bronze := by
  rcases a with events | size | written | _ | _ | _
  · obtain rfl := Option.some.inj h
    exact Or.inl rfl
  · obtain ⟨-, h⟩ := Option.ite_none_right_eq_some.1 h
    obtain rfl := Option.some.inj h
    exact Or.inl rfl
  · obtain ⟨size, hplanned, rfl⟩ := Option.map_eq_some_iff.1 h
    exact Or.inr ⟨size, written, hplanned, rfl⟩
  · obtain ⟨size, hplanned, rfl⟩ := Option.map_eq_some_iff.1 h
    exact Or.inr ⟨size, ⟨true, fun _ ↦ true⟩, hplanned, rfl⟩
  · obtain ⟨size, -, h⟩ := Option.bind_eq_some_iff.1 h
    obtain ⟨-, h⟩ := Option.ite_none_right_eq_some.1 h
    obtain rfl := Option.some.inj h
    exact Or.inl rfl
  · obtain rfl := Option.some.inj h
    exact Or.inl rfl

/-- So does every step. -/
theorem stamped_typedStreamStep (hs : s.bronze.Stamped)
    (h : typedStreamStep fns settings contracts s a = some s') : s'.bronze.Stamped := by
  rcases bronze_of_typedStreamStep h with hsame | ⟨size, written, -, happends⟩
  · rwa [hsame]
  · intro t
    rw [happends, tables_writeAppends]
    split
    · exact stamped_appendTable (hs t)
    · exact hs t

/-- And every run. -/
theorem stamped_typedStream {actions : List TypedStreamAction}
    (h : run (typedStreamStep fns settings contracts) typedStreamStart actions = some s) :
    s.bronze.Stamped :=
  run_invariant_of_step (fun s ↦ s.bronze.Stamped) (fun _ _ _ ↦ stamped_typedStreamStep)
    (fun _ ↦ TxnTable.stamped_empty) h

/-- Not a reset. -/
def KeepsCheckpoint (_ : TypedStream C) (a : TypedStreamAction) : Prop :=
  a ≠ .reset

variable (fns settings contracts) in
/-- **The invariant without resets**: the planned micro-batch is in the log, and a table has
recorded the numbers of committed micro-batches at most, or that of the planned one with its
rows. -/
structure NumbersFixed (s : TypedStream C) : Prop where
  /-- Typed Bronze has rows under the transactions they were appended with. -/
  stamped : s.bronze.Stamped
  /-- The planned rows have arrived. -/
  planned_le : ∀ size, s.planned = some size → s.committed + size ≤ s.rawLog.length
  /-- What is recorded. -/
  recorded : ∀ t batchId, (s.bronze.tables t).covers (settings.appId t.name) batchId = true →
    batchId < s.nextBatch ∨ batchId = s.nextBatch ∧ ∃ size, s.planned = some size ∧
      (s.bronze.tables t).rowsOf (typedStamp t) (settings.appId t.name) batchId =
        decodedRows fns settings contracts t batchId (s.microBatch size)

/-- An append under the number of the planned micro-batch records that number with its rows. -/
theorem recorded_appendTable {table : TxnTable (TypedCdcRow C) TypedAppId} {batchId' : ℕ}
    (hstamped : table.Stamped (typedStamp t))
    (hold : ∀ batchId', table.covers (settings.appId t.name) batchId' = true →
      batchId' < batchId ∨ batchId' = batchId ∧
        table.rowsOf (typedStamp t) (settings.appId t.name) batchId' =
          decodedRows fns settings contracts t batchId' prepared)
    (hcov : (appendTable fns settings contracts batchId prepared t table).covers
      (settings.appId t.name) batchId' = true) :
    batchId' < batchId ∨ batchId' = batchId ∧
      (appendTable fns settings contracts batchId prepared t table).rowsOf (typedStamp t)
        (settings.appId t.name) batchId' =
          decodedRows fns settings contracts t batchId' prepared := by
  rcases Decidable.em (validEvents t prepared = []) with hnone | hvalid
  · have hsame : appendTable fns settings contracts batchId prepared t table = table :=
      if_neg fun hsome ↦ isSome_tableStatistics.1 hsome hnone
    rw [hsame] at hcov ⊢
    exact hold batchId' hcov
  · have hle : batchId' < batchId ∨ batchId' = batchId := by
      rw [appendTable, if_pos (isSome_tableStatistics.2 hvalid), TxnTable.covers_append] at hcov
      rcases hcov with hcov | ⟨-, hle⟩
      · exact (hold batchId' hcov).imp id And.left
      · omega
    refine hle.imp id fun heq ↦ ⟨heq, ?_⟩
    subst heq
    rw [rowsOf_appendTable hstamped hvalid]
    split
    · rename_i hbefore
      rcases hold batchId' hbefore with hlt | ⟨-, hrows⟩
      · omega
      · exact hrows
    · rfl

/-- An attempt at the planned micro-batch keeps the invariant, as far as it gets. -/
theorem numbersFixed_writeAppends (hs : NumbersFixed fns settings contracts s) {size : ℕ}
    (hplanned : s.planned = some size) (written : Written) (returned : Bool) :
    NumbersFixed fns settings contracts { s with
      bronze := writeAppends fns settings contracts written s.nextBatch (s.microBatch size) s.bronze
      returned := returned } := by
  refine ⟨fun t ↦ ?_, hs.planned_le, fun t batchId hcov ↦ ?_⟩
  · show ((writeAppends ..).tables t).Stamped _
    rw [tables_writeAppends]
    split
    · exact stamped_appendTable (hs.stamped t)
    · exact hs.stamped t
  · have hold : ∀ batchId, (s.bronze.tables t).covers (settings.appId t.name) batchId = true →
        batchId < s.nextBatch ∨ batchId = s.nextBatch ∧
          (s.bronze.tables t).rowsOf (typedStamp t) (settings.appId t.name) batchId =
            decodedRows fns settings contracts t batchId (s.microBatch size) := by
      intro batchId hcov
      refine (hs.recorded t batchId hcov).imp id ?_
      rintro ⟨heq, size', hplanned', hrows⟩
      obtain rfl := Option.some.inj (hplanned.symm.trans hplanned')
      exact ⟨heq, hrows⟩
    show batchId < s.nextBatch ∨ batchId = s.nextBatch ∧ ∃ size', s.planned = some size' ∧
      ((writeAppends ..).tables t).rowsOf _ _ _ = decodedRows _ _ _ t batchId (s.microBatch size')
    rw [tables_writeAppends] at hcov ⊢
    split
    · rename_i hwritten
      rw [if_pos hwritten] at hcov
      exact (recorded_appendTable (hs.stamped t) hold hcov).imp id
        fun ⟨heq, hrows⟩ ↦ ⟨heq, size, hplanned, hrows⟩
    · rename_i hwritten
      rw [if_neg hwritten] at hcov
      exact hs.recorded t batchId hcov

/-- Every step but a reset keeps it. -/
theorem numbersFixed_typedStreamStep (hs : NumbersFixed fns settings contracts s)
    (hkeeps : KeepsCheckpoint s a) (h : typedStreamStep fns settings contracts s a = some s') :
    NumbersFixed fns settings contracts s' := by
  rcases a with events | size | written | _ | _ | _
  · -- what arrives does not change the planned rows
    obtain rfl := Option.some.inj h
    refine ⟨hs.stamped, fun size hplanned ↦ ?_, fun t batchId hcov ↦ ?_⟩
    · have hle := hs.planned_le size hplanned
      show s.committed + size ≤ (s.rawLog ++ events).length
      rw [List.length_append]
      omega
    · refine (hs.recorded t batchId hcov).imp id ?_
      rintro ⟨heq, size, hplanned, hrows⟩
      have hle := hs.planned_le size hplanned
      refine ⟨heq, size, hplanned, hrows.trans ?_⟩
      show decodedRows fns settings contracts t batchId ((s.rawLog.drop s.committed).take size) =
        decodedRows fns settings contracts t batchId
          (((s.rawLog ++ events).drop s.committed).take size)
      rw [List.drop_append_of_le_length (by omega), List.take_append_of_le_length]
      rw [List.length_drop]
      omega
  -- a new batch is planned: no table has recorded its number yet
  · obtain ⟨⟨hnone, hle⟩, h⟩ := Option.ite_none_right_eq_some.1 h
    obtain rfl := Option.some.inj h
    refine ⟨hs.stamped, fun size' hplanned ↦ ?_, fun t batchId hcov ↦ ?_⟩
    · obtain rfl := Option.some.inj hplanned
      exact hle
    · rcases hs.recorded t batchId hcov with hlt | ⟨-, size', hplanned, -⟩
      · exact Or.inl hlt
      · rw [hnone] at hplanned
        cases hplanned
  · obtain ⟨size, hplanned, rfl⟩ := Option.map_eq_some_iff.1 h
    exact numbersFixed_writeAppends hs hplanned written false
  · obtain ⟨size, hplanned, rfl⟩ := Option.map_eq_some_iff.1 h
    exact numbersFixed_writeAppends hs hplanned ⟨true, fun _ ↦ true⟩ true
  -- a committed batch lies below the next number
  · obtain ⟨size, hplanned, h⟩ := Option.bind_eq_some_iff.1 h
    obtain ⟨-, h⟩ := Option.ite_none_right_eq_some.1 h
    obtain rfl := Option.some.inj h
    refine ⟨hs.stamped, fun _ hnone ↦ (by cases hnone), fun t batchId hcov ↦ Or.inl ?_⟩
    show batchId < s.nextBatch + 1
    rcases hs.recorded t batchId hcov with hlt | ⟨heq, -⟩ <;> omega
  · exact absurd rfl hkeeps

/-- **Within one checkpoint every hand-off is exact**: whatever fails between two commits, and
however the raw log is cut. -/
theorem materialize_exact_of_no_reset {actions : List TypedStreamAction} {size : ℕ}
    (hkeeps : Along (typedStreamStep fns settings contracts) KeepsCheckpoint typedStreamStart
      actions)
    (hrun : run (typedStreamStep fns settings contracts) typedStreamStart actions = some s)
    (hplanned : s.planned = some size) :
    ExactHandOff fns settings contracts
      (materialize fns settings contracts s.nextBatch (s.microBatch size) s.bronze).2
      s.nextBatch (s.microBatch size) := by
  have hs : NumbersFixed fns settings contracts s :=
    run_invariant (NumbersFixed fns settings contracts)
      (fun _ _ _ ↦ numbersFixed_typedStreamStep)
      ⟨fun _ ↦ TxnTable.stamped_empty, fun _ h ↦ (by cases h), fun _ _ h ↦ (by cases h)⟩ hkeeps hrun
  refine (exactHandOff_iff hs.stamped).2 fun t _ hcov ↦ ?_
  rcases hs.recorded t _ hcov with hlt | ⟨-, size', hplanned', hrows⟩
  · omega
  · obtain rfl := Option.some.inj (hplanned.symm.trans hplanned')
    rw [filter_batchKey (t := t), hrows]

/-- **The hand-off of typed Bronze.** In every reachable state, after any retries, restarts and
resets, the hand-off of the next micro-batch, however many raw rows it is planned over, is exact if
and only if each table with valid rows in it either has not recorded the number of the micro-batch
or a higher one, or has the decoded rows of this very micro-batch under the number. -/
theorem materialize_exact_iff (fns : SparkFunctions) (settings : SilverStreamSettings)
    (contracts : SilverTable → TypedCdcContract C) (actions : List TypedStreamAction)
    (s : TypedStream C) (size : ℕ)
    (hrun : run (typedStreamStep fns settings contracts) typedStreamStart actions = some s) :
    ExactHandOff fns settings contracts
        (materialize fns settings contracts s.nextBatch (s.microBatch size) s.bronze).2
        s.nextBatch (s.microBatch size) ↔
      NumberStandsFor fns settings contracts s.bronze s.nextBatch (s.microBatch size) :=
  exactHandOff_iff (stamped_typedStream hrun)

end Lemmas

/-! ### The number of another micro-batch -/

/-- Rows with no business columns. -/
def plainContracts : SilverTable → TypedCdcContract Unit := fun _ ↦ ⟨fun _ _ ↦ (), fun _ ↦ []⟩

/-- Settings of the query. -/
def plainSettings : SilverStreamSettings := ⟨['q'], ['v', '1'], ['s'], ['U', 'T', 'C']⟩

/-- A valid event of an order at an offset. -/
def orderEvent (offset : ℤ) : PreparedEvent where
  transport := ⟨some ['t'], some 0, some offset, none, none, none, none, ['t'], 0, offset, 0,
    some ['p'], some SilverTable.orders.name⟩
  operation := some ['u']
  payload := []
  decodeError := none

/-- A micro-batch of one event fails after its append and is retried. -/
def retriedMicroBatch : List TypedStreamAction :=
  [.arrive [orderEvent 0], .plan 1, .fail ⟨true, fun _ ↦ true⟩]

/-- A retry finds its number recorded with its own rows. -/
theorem materialize_exact_iff_retried :
    ∃ s : TypedStream Unit,
      run (typedStreamStep .plain plainSettings plainContracts) typedStreamStart
        retriedMicroBatch = some s ∧ s.planned = some 1 ∧
      ExactHandOff .plain plainSettings plainContracts
        (materialize .plain plainSettings plainContracts s.nextBatch (s.microBatch 1) s.bronze).2
        s.nextBatch (s.microBatch 1) := by
  refine ⟨_, rfl, rfl, (materialize_exact_iff .plain plainSettings plainContracts
    retriedMicroBatch _ 1 rfl).2 ?_⟩
  intro t _ _
  cases t <;> decide

/-- Two micro-batches of one event each, a reset, and the replay plans both events as one. -/
def replayAfterReset : List TypedStreamAction :=
  [.arrive [orderEvent 0, orderEvent 1], .plan 1, .finish, .commit, .plan 1, .finish, .commit,
    .reset, .plan 2]

/-- **A replay after `unified-state-reset` loses an event**: the append of the new micro-batch 0 is
skipped, and Silver is handed the old micro-batch 0, without the second event. -/
theorem materialize_loses_event :
    ¬∀ (C : Type) (fns : SparkFunctions) (settings : SilverStreamSettings)
      (contracts : SilverTable → TypedCdcContract C) actions (s : TypedStream C) size,
      run (typedStreamStep fns settings contracts) typedStreamStart actions = some s →
      s.planned = some size →
      ExactHandOff fns settings contracts
        (materialize fns settings contracts s.nextBatch (s.microBatch size) s.bronze).2
        s.nextBatch (s.microBatch size) := by
  intro hexact
  have horders := hexact Unit .plain plainSettings plainContracts replayAfterReset _ 2 rfl rfl
    .orders
  rw [if_neg (by decide)] at horders
  obtain ⟨rows, hrows, hperm⟩ := horders
  have hone : rows.length = 1 := by
    rw [← Option.some.inj hrows]
    decide
  rw [hperm.length_eq] at hone
  exact absurd hone (by decide)

end LakehousePipeline
