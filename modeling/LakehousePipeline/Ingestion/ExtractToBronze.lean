import LakehousePipeline.Ingestion.BatchBronze
import LakehousePipeline.Library.PolledLog
import LakehousePipeline.Library.Runs

/-!
# The Bronze stage

`BronzeExtractor` reads the state of each Bronze table, captures an upper bound on the unread change
events of each in one control query, and then, table by table, reads the events up to the bound and
appends them in one Delta commit that has the cursor in its metadata. Reads are retried, the stage
can be killed anywhere, and change events are written all the time; only maintenance and other
extractions stay out of a stage.

This module follows one table through the stages (`ExtractedTable.step`). In every state it gets to
it holds the change events up to its cursor, each once (`ExtractedTable.Sound`), and when a stage is
done with it, the stage has read the next `max_events_per_batch` events and reports the version of
the commit that has the cursor (`TableExtraction.Ended`).

Spark's partitioned JDBC read is a parameter. The counts by operation of a result are left out, as
nothing reads them.

## What a stage knows, and when

A stage learns about a table step by step, and `TableExtraction` has a field for each: the state it
has read at the beginning, the upper bound of the control query, the events it has materialized, the
result. Change events are written between any two of these. The one fact that makes this harmless is
that ids become visible in increasing order: what appears after the control query is above the
bound, so the range up to it reads the same whenever it is read (`Sound.eventsTo_visible`). A
transaction that commits with an id below one that is visible already would break it; that there is
none is built into the step `write`.

## The invariant

`ExtractedTable.Sound` says three things: the cursor of a table is 0 or the id of an event, the rows
are those of the events up to the cursor, once each (`HoldsEvents`), and what the stage under way
knows is true of the table as it was found (`TableExtraction.Sound`). The commit of a stage is the
step that uses all of them: the rows it appends are those of the events between the old cursor and
the new one (`Sound.materialized`), and the table had those before (`Sound.append`).
-/

namespace LakehousePipeline

/-! ### Configuration -/

/-- The fields of `PostgresConfig` the extraction reads, as validated. -/
structure PostgresConfig where
  /-- `max_jdbc_partitions`. -/
  maxJdbcPartitions : ℕ
  /-- `target_events_per_partition`. -/
  targetEventsPerPartition : ℕ
  /-- `max_events_per_batch`. -/
  maxEventsPerBatch : ℕ
  /-- `ge=1`. -/
  maxJdbcPartitions_pos : 1 ≤ maxJdbcPartitions
  /-- `ge=1`. -/
  targetEventsPerPartition_pos : 1 ≤ targetEventsPerPartition
  /-- `ge=1`. -/
  maxEventsPerBatch_pos : 1 ≤ maxEventsPerBatch

/-- `EventCursor`. -/
structure EventCursor where
  /-- `last_event_id`. -/
  lastEventId : ℤ
  /-- A negative id raises. -/
  nonneg : 0 ≤ lastEventId

variable {K P : Type}

/-! ### Change events -/

/-- A row of `change_events` of one table, as the extraction query returns it: `row_data` may lack
the primary key, and the other columns are nullable in the result. -/
structure ChangeEvent (K P : Type) where
  /-- `event_id`. -/
  eventId : ℤ
  /-- The primary key in `row_data`. -/
  key : Option K
  /-- `created_at` in `row_data`. -/
  createdAt : Timestamp
  /-- The other columns in `row_data`. -/
  payload : P
  /-- `operation`. -/
  operation : Option Operation
  /-- `occurred_at`. -/
  occurredAt : Option Timestamp

/-- `ChangeOperation`. -/
def changeOperations : List Operation :=
  [.insert, .update, .delete]

/-- `add_bronze_metadata`, if the event passes the checks of `collect_change_event_stats`. -/
def ChangeEvent.bronzeEvent? (batchId : Text) (e : ChangeEvent K P) : Option (BronzeEvent K P) :=
  match e.key, e.operation, e.occurredAt with
  | some key, some operation, some occurredAt =>
    if operation ∈ changeOperations then
      some
        { key := key
          createdAt := e.createdAt
          payload := e.payload
          operation := operation
          eventOccurredAt := some occurredAt
          eventId := .number e.eventId
          batchId := batchId
          isStreamingCdc := false
          sourceLsn := none
          kafkaPartition := none
          kafkaOffset := none }
    else none
  | _, _, _ => none

/-- `collect_change_event_stats`: one invalid event raises. -/
def collectEvents (batchId : Text) (found : List (ChangeEvent K P)) :
    Option (List (BronzeEvent K P)) :=
  if found.all fun e ↦ (e.bronzeEvent? batchId).isSome then
    some (found.filterMap fun e ↦ e.bronzeEvent? batchId)
  else none

/-! ### The source queries -/

/-- `batch_upper_bound` of `batch_upper_bounds_query`. -/
def batchUpperBound (config : PostgresConfig) (cursor : ℤ) (events : List (ChangeEvent K P)) :
    Option ℤ :=
  PolledLog.bound (fun e ↦ e.eventId) config.maxEventsPerBatch cursor events

/-- The rows of `change_event_query`. -/
def changeEventRows (cursor batchUpperBound : ℤ) (events : List (ChangeEvent K P)) :
    List (ChangeEvent K P) :=
  PolledLog.between (fun e ↦ e.eventId) cursor batchUpperBound events

/-- `jdbc_partition_count`. -/
def jdbcPartitionCount (config : PostgresConfig) (cursor batchUpperBound : ℤ) : ℕ :=
  let eventIdSpan := (max (batchUpperBound - cursor) 1).toNat
  -- `math.ceil` of the quotient
  let required := (eventIdSpan + config.targetEventsPerPartition - 1) /
    config.targetEventsPerPartition
  min required config.maxJdbcPartitions

/-- Spark's partitioned read, from the lower bound, the upper bound, the number of partitions and
the rows of the query. -/
abbrev PartitionedRead (K P : Type) :=
  ℤ → ℤ → ℕ → List (ChangeEvent K P) → List (ChangeEvent K P)

/-- The bounds of a partitioned read decide the stride of the partitions; all rows of the query are
returned, each in one partition. -/
def ReadsAllRows (jdbc : PartitionedRead K P) : Prop :=
  ∀ lower upper partitions rows, lower < upper → 1 ≤ partitions →
    (jdbc lower upper partitions rows).Perm rows

/-- `_read_events`: the empty query without a bound, else the partitioned read, which checks its
arguments. -/
def readEvents (config : PostgresConfig) (jdbc : PartitionedRead K P)
    (events : List (ChangeEvent K P)) (cursor : ℤ) : Option ℤ → Option (List (ChangeEvent K P))
  | none => some []
  | some upperBound =>
    let partitions := jdbcPartitionCount config cursor upperBound
    if cursor + 1 < upperBound + 1 ∧ 1 ≤ partitions ∧ partitions ≤ config.maxJdbcPartitions then
      some (jdbc (cursor + 1) (upperBound + 1) partitions
        (changeEventRows cursor upperBound events))
    else none

/-! ### The state of a Bronze table -/

/-- `_BronzeState` of a table that exists. -/
structure BronzeTableState where
  /-- The latest version. -/
  version : ℕ
  /-- `processed_version`. -/
  processedVersion : ℕ
  /-- `cursor`. -/
  cursor : EventCursor

/-- `_table_state`: none for a missing table. A table without recent progress metadata raises, and
so does a negative cursor. -/
def tableState (log : List (BronzeCommit K P)) : Option (Option BronzeTableState) :=
  if log.isEmpty then some none
  else (bronzeProgressVersion log).bind fun processed ↦
    (log[processed]?.bind fun c ↦ c.lastEventId).bind fun id ↦
      if h : 0 ≤ id then some (some ⟨log.length - 1, processed, ⟨id, h⟩⟩) else none

/-- The id the queries start after. -/
def lastEventId (state : Option BronzeTableState) : ℤ :=
  (state.map fun s ↦ s.cursor.lastEventId).getD 0

/-- The source has been reset: it has no event as new as the cursor. -/
def sequenceRegressed (state : Option BronzeTableState) (events : List (ChangeEvent K P)) : Bool :=
  match state, (events.map fun e ↦ e.eventId).max? with
  | none, _ => false
  | some _, none => true
  | some s, some sourceMax => sourceMax < s.cursor.lastEventId

/-! ### Writing -/

/-- `write_append_only`: append to a table, or overwrite where there is none. -/
def writeAppendOnly (tableExists : Bool) (log : List (BronzeCommit K P)) (c : BronzeCommit K P) :
    List (BronzeCommit K P) :=
  if tableExists then log ++ [c] else [c]

/-- `_result`. -/
def tableResult (state : Option BronzeTableState) (recordCount : ℕ) : BronzeTableResult :=
  match state with
  | none => { recordCount := recordCount, ingestionType := .initial, deltaVersion := 0 }
  | some s =>
    { recordCount := recordCount
      ingestionType := .incremental
      deltaVersion :=
        if 0 < recordCount then s.version ⊔ s.processedVersion + 1 else s.processedVersion }

/-- `_run_table` once the events are materialized. -/
def appendEvents (state : Option BronzeTableState) (rows : List (BronzeEvent K P))
    (log : List (BronzeCommit K P)) : List (BronzeCommit K P) × BronzeTableResult :=
  (if 0 < rows.length ∨ state.isNone then
      writeAppendOnly state.isSome log
        { rows := rows, lastEventId := some (nextCursor (lastEventId state) rows) }
    else log,
    tableResult state rows.length)

/-! ### One table in a stage -/

/-- What a stage knows of a table. -/
structure TableExtraction (K P : Type) where
  /-- `batch_id`. -/
  batchId : Text
  /-- The state read at the beginning. -/
  state : Option BronzeTableState
  /-- The upper bound, once the control query has returned. -/
  bound : Option (Option ℤ)
  /-- The change events there were when it did; no step reads them. -/
  visible : List (ChangeEvent K P)
  /-- The materialized rows. -/
  rows : Option (List (BronzeEvent K P))
  /-- The result, once the table is done. -/
  result : Option BronzeTableResult

/-- A source table's change events, its Bronze table and the stage under way. -/
structure ExtractedTable (K P : Type) where
  /-- The change events that are visible. -/
  events : List (ChangeEvent K P)
  /-- The commits of the Bronze table. -/
  log : List (BronzeCommit K P)
  /-- The stage under way, if any. -/
  run : Option (TableExtraction K P)

/-- What happens to a table. -/
inductive TableAction (K P : Type)
  /-- A change event becomes visible. -/
  | write (e : ChangeEvent K P)
  /-- A commit of maintenance. -/
  | optimize
  /-- A stage begins: `_table_state`. -/
  | begin (batchId : Text)
  /-- The control query returns: `read_batch_upper_bounds`. -/
  | readBounds
  /-- `_materialize_events` succeeds; what a failed attempt has read is dropped. -/
  | materialize
  /-- The rest of `_run_table`. -/
  | finish
  /-- The stage is killed, or one of its steps has raised. -/
  | killed
  /-- The stage ends. -/
  | complete

/-- The id the queries of the stage start after. -/
def TableExtraction.cursor (run : TableExtraction K P) : ℤ :=
  lastEventId run.state

/-- `run_table` reads nothing of a table that exists and has no unread event. -/
def TableExtraction.isIdle (run : TableExtraction K P) : Bool :=
  run.state.isSome && run.bound = some none

namespace ExtractedTable

/-- No table yet, and no change event. -/
def empty : ExtractedTable K P where
  events := []
  log := []
  run := none

variable (config : PostgresConfig) (jdbc : PartitionedRead K P) (table : ExtractedTable K P)

/-- A step of the stage under way. -/
def runStep (run : TableExtraction K P) : TableAction K P → Option (ExtractedTable K P)
  | .readBounds =>
    if run.bound.isSome || sequenceRegressed run.state table.events then none
    else some { table with run := some { run with
      bound := some (batchUpperBound config run.cursor table.events)
      visible := table.events } }
  | .materialize =>
    if run.isIdle || run.result.isSome then none
    else run.bound.bind fun bound ↦ (readEvents config jdbc table.events run.cursor bound).bind
      fun found ↦ (collectEvents run.batchId found).map fun rows ↦
        { table with run := some { run with rows := some rows } }
  | .finish =>
    if run.result.isSome then none
    else if run.isIdle then
      some { table with run := some { run with result := some (tableResult run.state 0) } }
    else run.rows.map fun rows ↦
      { table with
        log := (appendEvents run.state rows table.log).1
        run := some { run with result := some (appendEvents run.state rows table.log).2 } }
  | .killed => some { table with run := none }
  | .complete => if run.result.isSome then some { table with run := none } else none
  | _ => none

/-- One action. Ids become visible in increasing order, from 1 on. -/
def step : TableAction K P → Option (ExtractedTable K P)
  | .write e =>
    if 0 < e.eventId ∧ ∀ x ∈ table.events, x.eventId < e.eventId then
      some { table with events := table.events ++ [e] }
    else none
  | .optimize =>
    if table.run.isSome || table.log.isEmpty then none
    else some { table with log := table.log ++ [⟨[], none⟩] }
  | .begin batchId =>
    if table.run.isSome then none
    else (tableState table.log).map fun state ↦
      { table with run := some ⟨batchId, state, none, [], none, none⟩ }
  | action => table.run.bind fun run ↦ table.runStep config jdbc run action

/-- What a step needs, and what it does. -/
inductive Steps : TableAction K P → ExtractedTable K P → Prop
  | write {e : ChangeEvent K P} (pos : 0 < e.eventId)
    (new : ∀ x ∈ table.events, x.eventId < e.eventId) :
    Steps (.write e) { table with events := table.events ++ [e] }
  | optimize (idle : table.run = none) (created : table.log ≠ []) :
    Steps .optimize { table with log := table.log ++ [⟨[], none⟩] }
  | begin {batchId : Text} {state : Option BronzeTableState} (idle : table.run = none)
    (read : tableState table.log = some state) :
    Steps (.begin batchId) { table with run := some ⟨batchId, state, none, [], none, none⟩ }
  | readBounds {run : TableExtraction K P} (stage : table.run = some run) (first : run.bound = none)
    (passed : sequenceRegressed run.state table.events = false) :
    Steps .readBounds { table with run := some { run with
      bound := some (batchUpperBound config run.cursor table.events)
      visible := table.events } }
  | materialize {run : TableExtraction K P} {bound : Option ℤ} {found : List (ChangeEvent K P)}
    {rows : List (BronzeEvent K P)} (stage : table.run = some run)
    (bounded : run.bound = some bound) (running : run.result = none)
    (read : readEvents config jdbc table.events run.cursor bound = some found)
    (valid : collectEvents run.batchId found = some rows) :
    Steps .materialize { table with run := some { run with rows := some rows } }
  | finishIdle {run : TableExtraction K P} (stage : table.run = some run) (idle : run.isIdle = true)
    (running : run.result = none) :
    Steps .finish { table with run := some { run with result := some (tableResult run.state 0) } }
  | finish {run : TableExtraction K P} {rows : List (BronzeEvent K P)}
    (stage : table.run = some run)
    (busy : run.isIdle = false) (running : run.result = none) (read : run.rows = some rows) :
    Steps .finish { table with
      log := (appendEvents run.state rows table.log).1
      run := some { run with result := some (appendEvents run.state rows table.log).2 } }
  | killed {run : TableExtraction K P} (stage : table.run = some run) :
    Steps .killed { table with run := none }
  | complete {run : TableExtraction K P} (stage : table.run = some run)
    (done : run.result.isSome = true) : Steps .complete { table with run := none }

variable {config jdbc table} {table' : ExtractedTable K P} {action : TableAction K P}

/-- Every step is one of these. -/
theorem steps_of_step (h : table.step config jdbc action = some table') :
    Steps config jdbc table action table' := by
  cases action with
  | write e =>
    obtain ⟨⟨hpos, hnew⟩, heq⟩ := Option.ite_none_right_eq_some.1 h
    obtain rfl := Option.some.inj heq
    exact .write hpos hnew
  | optimize =>
    obtain ⟨hguard, heq⟩ := Option.ite_none_left_eq_some.1 h
    obtain rfl := Option.some.inj heq
    rw [Bool.or_eq_true, not_or, Option.not_isSome_iff_eq_none, List.isEmpty_iff] at hguard
    exact .optimize hguard.1 hguard.2
  | begin batchId =>
    obtain ⟨hguard, heq⟩ := Option.ite_none_left_eq_some.1 h
    obtain ⟨state, hstate, rfl⟩ := Option.map_eq_some_iff.1 heq
    rw [Option.not_isSome_iff_eq_none] at hguard
    exact .begin hguard hstate
  | readBounds =>
    obtain ⟨run, hrun, h⟩ := Option.bind_eq_some_iff.1 h
    obtain ⟨hguard, heq⟩ := Option.ite_none_left_eq_some.1 h
    obtain rfl := Option.some.inj heq
    rw [Bool.or_eq_true, not_or, Option.not_isSome_iff_eq_none, Bool.not_eq_true] at hguard
    exact .readBounds hrun hguard.1 hguard.2
  | materialize =>
    obtain ⟨run, hrun, h⟩ := Option.bind_eq_some_iff.1 h
    obtain ⟨hguard, h⟩ := Option.ite_none_left_eq_some.1 h
    obtain ⟨bound, hbound, h⟩ := Option.bind_eq_some_iff.1 h
    obtain ⟨found, hfound, h⟩ := Option.bind_eq_some_iff.1 h
    obtain ⟨rows, hcollect, rfl⟩ := Option.map_eq_some_iff.1 h
    rw [Bool.or_eq_true, not_or, Bool.not_eq_true, Option.not_isSome_iff_eq_none] at hguard
    exact .materialize hrun hbound hguard.2 hfound hcollect
  | finish =>
    obtain ⟨run, hrun, h⟩ := Option.bind_eq_some_iff.1 h
    obtain ⟨hguard, h⟩ := Option.ite_none_left_eq_some.1 h
    rw [Option.not_isSome_iff_eq_none] at hguard
    split at h
    · -- the table exists and the bounds query has found nothing above the cursor
      rename_i hidle
      obtain rfl := Option.some.inj h
      exact .finishIdle hrun hidle hguard
    · rename_i hidle
      obtain ⟨rows, hrows, rfl⟩ := Option.map_eq_some_iff.1 h
      exact .finish hrun (Bool.eq_false_iff.2 hidle) hguard hrows
  | killed =>
    obtain ⟨run, hrun, h⟩ := Option.bind_eq_some_iff.1 h
    obtain rfl := Option.some.inj h
    exact .killed hrun
  | complete =>
    obtain ⟨run, hrun, h⟩ := Option.bind_eq_some_iff.1 h
    obtain ⟨hdone, heq⟩ := Option.ite_none_right_eq_some.1 h
    obtain rfl := Option.some.inj heq
    exact .complete hrun hdone

end ExtractedTable

/-! ### What is read -/

/-- The row was made from the event, by some batch. -/
def ChangeEvent.MakesRow (e : ChangeEvent K P) (row : BronzeEvent K P) : Prop :=
  ∃ batchId, e.bronzeEvent? batchId = some row

/-- The row of an event has its id. -/
theorem ChangeEvent.eventId_of_bronzeEvent? {batchId : Text} {e : ChangeEvent K P}
    {row : BronzeEvent K P} (h : e.bronzeEvent? batchId = some row) :
    row.eventId = .number e.eventId := by
  rw [ChangeEvent.bronzeEvent?] at h
  split at h
  · obtain ⟨-, heq⟩ := Option.ite_none_right_eq_some.1 h
    rw [← Option.some.inj heq]
  · cases h

/-- The rows collected are those of the events, one by one. -/
theorem makesRow_of_collectEvents {batchId : Text} {found : List (ChangeEvent K P)}
    {rows : List (BronzeEvent K P)} (h : collectEvents batchId found = some rows) :
    List.Forall₂ ChangeEvent.MakesRow found rows ∧
      (rows.filterMap fun row ↦ row.eventId.asLong) = found.map fun e ↦ e.eventId := by
  obtain ⟨hall, heq⟩ := Option.ite_none_right_eq_some.1 h
  obtain rfl := Option.some.inj heq
  clear h heq
  induction found with
  | nil => exact ⟨List.Forall₂.nil, rfl⟩
  | cons e rest ih =>
    rw [List.all_cons, Bool.and_eq_true_iff] at hall
    obtain ⟨row, hrow⟩ := Option.isSome_iff_exists.1 hall.1
    obtain ⟨hmakes, hids⟩ := ih hall.2
    rw [List.filterMap_cons_some hrow]
    refine ⟨List.Forall₂.cons ⟨batchId, hrow⟩ hmakes, ?_⟩
    rw [List.filterMap_cons_some (by rw [ChangeEvent.eventId_of_bronzeEvent? hrow]; rfl), hids,
      List.map_cons]

/-- The events a read up to a bound returns. -/
def eventsTo (cursor : ℤ) (bound : Option ℤ) (events : List (ChangeEvent K P)) :
    List (ChangeEvent K P) :=
  (bound.map fun b ↦ PolledLog.between (fun e ↦ e.eventId) cursor b events).getD []

/-- A read returns the events of its range, in some order. -/
theorem perm_of_readEvents {config : PostgresConfig} {jdbc : PartitionedRead K P}
    (hjdbc : ReadsAllRows jdbc) {events found : List (ChangeEvent K P)} {cursor : ℤ}
    {bound : Option ℤ} (h : readEvents config jdbc events cursor bound = some found) :
    found.Perm (eventsTo cursor bound events) := by
  rcases bound with - | b
  · rw [← Option.some.inj h]
    rfl
  · obtain ⟨⟨hlt, hone, -⟩, heq⟩ := Option.ite_none_right_eq_some.1 h
    rw [← Option.some.inj heq]
    exact hjdbc _ _ _ _ hlt hone

/-! ### The cursor of a table -/

/-- The cursor in the metadata of the last commit of the extraction. -/
def bronzeCursor (log : List (BronzeCommit K P)) : Option ℤ :=
  log[TableLog.lastVersionWhere (fun c ↦ c.lastEventId.isSome) log]?.bind fun c ↦ c.lastEventId

/-- A commit of the extraction sets the cursor. -/
theorem bronzeCursor_concat (log : List (BronzeCommit K P)) (rows : List (BronzeEvent K P))
    (cursor : ℤ) : bronzeCursor (log ++ [⟨rows, some cursor⟩]) = some cursor := by
  rw [bronzeCursor, TableLog.lastVersionWhere_concat_of_pos
    (p := fun c : BronzeCommit K P ↦ c.lastEventId.isSome) rfl, List.getElem?_concat_length]
  rfl

/-- Maintenance leaves the cursor. -/
theorem bronzeCursor_optimize {log : List (BronzeCommit K P)} (hne : log ≠ []) :
    bronzeCursor (log ++ [⟨[], none⟩]) = bronzeCursor log := by
  have hlt := TableLog.lastVersionWhere_le (fun c : BronzeCommit K P ↦ c.lastEventId.isSome) log
  have hpos := List.length_pos_iff.2 hne
  rw [bronzeCursor, TableLog.lastVersionWhere_concat_of_neg
    (p := fun c : BronzeCommit K P ↦ c.lastEventId.isSome) rfl,
    List.getElem?_append_left (by omega)]
  rfl

/-- What a stage reads of a table at its beginning. -/
theorem tableState_spec {log : List (BronzeCommit K P)} {state : Option BronzeTableState}
    (h : tableState log = some state) :
    (log = [] ∧ state = none) ∨
      ∃ s, state = some s ∧ log ≠ [] ∧ s.version = log.length - 1 ∧
        s.processedVersion = TableLog.lastVersionWhere (fun c ↦ c.lastEventId.isSome) log ∧
        bronzeCursor log = some s.cursor.lastEventId := by
  rw [tableState] at h
  split at h
  · rename_i hnil
    exact Or.inl ⟨List.isEmpty_iff.1 hnil, (Option.some.inj h).symm⟩
  · rename_i hne
    obtain ⟨processed, hprocessed, h⟩ := Option.bind_eq_some_iff.1 h
    obtain ⟨id, hid, h⟩ := Option.bind_eq_some_iff.1 h
    split at h
    · rename_i hnonneg
      obtain rfl := Option.some.inj h
      obtain ⟨hlast, -⟩ := TableLog.recentVersionWhere_spec hprocessed
      refine Or.inr ⟨_, rfl, fun hnil ↦ hne (by rw [hnil]; rfl), rfl, hlast, ?_⟩
      rw [bronzeCursor, ← hlast, hid]
    · cases h

/-- The cursor of a stage is that of the table, 0 for a missing one. -/
theorem lastEventId_of_tableState {log : List (BronzeCommit K P)} {state : Option BronzeTableState}
    (h : tableState log = some state) : lastEventId state = (bronzeCursor log).getD 0 := by
  rcases tableState_spec h with ⟨rfl, rfl⟩ | ⟨s, rfl, -, -, -, hcursor⟩
  · rfl
  · rw [hcursor]
    rfl

/-- A missing table is created with the rows, whatever they are. -/
theorem appendEvents_missing (rows : List (BronzeEvent K P)) :
    appendEvents none rows [] = ([⟨rows, some (nextCursor 0 rows)⟩],
      { recordCount := rows.length, ingestionType := .initial, deltaVersion := 0 }) := by
  have hwrites : 0 < rows.length ∨ (none : Option BronzeTableState).isNone = true := Or.inr rfl
  rw [appendEvents, if_pos hwrites]
  rfl

/-- Rows are appended to a table that exists. -/
theorem appendEvents_of_ne_nil (s : BronzeTableState) {rows : List (BronzeEvent K P)}
    (hne : rows ≠ []) (log : List (BronzeCommit K P)) :
    appendEvents (some s) rows log =
      (log ++ [⟨rows, some (nextCursor s.cursor.lastEventId rows)⟩],
        { recordCount := rows.length
          ingestionType := .incremental
          deltaVersion := s.version ⊔ s.processedVersion + 1 }) := by
  have hrows : 0 < rows.length := List.length_pos_iff.2 hne
  rw [appendEvents, if_pos (Or.inl hrows), tableResult, if_pos hrows]
  rfl

/-- The version a stage predicts for its commit is the one the commit gets. -/
theorem appendEvents_spec {log : List (BronzeCommit K P)} {state : Option BronzeTableState}
    (h : tableState log = some state) {rows : List (BronzeEvent K P)}
    (hwrites : state = none ∨ rows ≠ []) :
    (appendEvents state rows log).1 =
        log ++ [⟨rows, some (nextCursor (lastEventId state) rows)⟩] ∧
      (appendEvents state rows log).2.deltaVersion = log.length := by
  rcases tableState_spec h with ⟨rfl, rfl⟩ | ⟨s, rfl, hne, hversion, hprocessed, -⟩
  · rw [appendEvents_missing]
    exact ⟨rfl, rfl⟩
  · rw [appendEvents_of_ne_nil s (hwrites.resolve_left nofun)]
    have hlast := TableLog.lastVersionWhere_le (fun c : BronzeCommit K P ↦ c.lastEventId.isSome) log
    have hpos := List.length_pos_iff.2 hne
    refine ⟨rfl, ?_⟩
    show s.version ⊔ s.processedVersion + 1 = _
    omega

/-- The stage does to a table what `extractTable` does with the rows the stage materializes. -/
theorem extractTable_eq_appendEvents {log : List (BronzeCommit K P)}
    {state : Option BronzeTableState} (h : tableState log = some state)
    (rows : List (BronzeEvent K P)) :
    extractTable log rows = some (appendEvents state rows log) := by
  rw [tableState] at h
  rw [extractTable]
  split at h
  · rename_i hnil
    obtain rfl := Option.some.inj h
    rw [if_pos hnil, List.isEmpty_iff.1 hnil, appendEvents_missing]
  · rename_i hne
    obtain ⟨processed, hprocessed, h⟩ := Option.bind_eq_some_iff.1 h
    obtain ⟨id, hid, h⟩ := Option.bind_eq_some_iff.1 h
    split at h
    · obtain rfl := Option.some.inj h
      rw [if_neg hne, hprocessed, Option.map_some, hid]
      rcases rows with - | ⟨row, rest⟩
      · rfl
      · rw [appendEvents_of_ne_nil _ (List.cons_ne_nil row rest)]
        rfl
    · cases h

/-! ### What holds of a table -/

/-- **The table holds the change events up to the cursor, each once.** -/
def HoldsEvents (events : List (ChangeEvent K P)) (cursor : ℤ) (rows : List (BronzeEvent K P)) :
    Prop :=
  ∃ found, found.Perm (PolledLog.upTo (fun e ↦ e.eventId) cursor events) ∧
    List.Forall₂ ChangeEvent.MakesRow found rows

/-- The rows of a Bronze table. -/
def bronzeTableRows (log : List (BronzeCommit K P)) : List (BronzeEvent K P) :=
  log.flatMap fun c ↦ c.rows

/-- **How a stage leaves a table**: it reports the last commit of the extraction, and between the
cursor it began with and the one it leaves are the next `max_events_per_batch` events, or all that
were unread. -/
structure TableExtraction.Ended (config : PostgresConfig) (run : TableExtraction K P)
    (log : List (BronzeCommit K P)) (result : BronzeTableResult) (cursor : ℤ) : Prop where
  cursor_eq : bronzeCursor log = some cursor
  version : result.deltaVersion = TableLog.lastVersionWhere (fun c ↦ c.lastEventId.isSome) log
  reached : cursor = run.cursor ∨ run.cursor < cursor ∧ ∃ e ∈ run.visible, e.eventId = cursor
  advances : (PolledLog.between (fun e ↦ e.eventId) run.cursor cursor run.visible).length =
    min config.maxEventsPerBatch
      (PolledLog.unread (fun e ↦ e.eventId) run.cursor run.visible).length

/-- What holds of the stage under way. -/
structure TableExtraction.Sound (config : PostgresConfig) (run : TableExtraction K P)
    (table : ExtractedTable K P) : Prop where
  /-- Until the table is done it is as it was at the beginning. -/
  state : run.result = none → tableState table.log = some run.state
  /-- The bound is that of the change events visible then. -/
  bound : ∀ bound, run.bound = some bound → run.visible <+: table.events ∧
    bound = batchUpperBound config run.cursor run.visible
  /-- The materialized rows are those of the events up to the bound. -/
  rows : ∀ rows, run.rows = some rows → ∃ bound found, run.bound = some bound ∧
    found.Perm (eventsTo run.cursor bound run.visible) ∧ collectEvents run.batchId found = some rows
  /-- A table that is done is left as a stage leaves it. -/
  ended : ∀ result, run.result = some result → ∃ bound cursor, run.bound = some bound ∧
    run.Ended config table.log result cursor

/-- **What holds in every reachable state.** -/
structure ExtractedTable.Sound (config : PostgresConfig) (table : ExtractedTable K P) : Prop where
  /-- Ids become visible in increasing order. -/
  increasing : PolledLog.Increasing (fun e ↦ e.eventId) table.events
  /-- Ids start at 1. -/
  positive : ∀ e ∈ table.events, 0 < e.eventId
  /-- The cursor is that of an event, or 0. -/
  cursor : (bronzeCursor table.log).getD 0 = 0 ∨
    ∃ e ∈ table.events, e.eventId = (bronzeCursor table.log).getD 0
  /-- A table that exists has a cursor. -/
  created : table.log ≠ [] → (bronzeCursor table.log).isSome = true
  /-- The table holds the events up to it. -/
  holds : HoldsEvents table.events ((bronzeCursor table.log).getD 0) (bronzeTableRows table.log)
  /-- The stage under way is sound. -/
  run : ∀ run, table.run = some run → run.Sound config table

namespace ExtractedTable

variable {config : PostgresConfig} {jdbc : PartitionedRead K P} {table table' : ExtractedTable K P}

/-- There is no table yet, and no stage. -/
theorem sound_empty : (empty : ExtractedTable K P).Sound config where
  increasing := List.Pairwise.nil
  positive _ he := by cases he
  cursor := Or.inl rfl
  created hne := absurd rfl hne
  holds := ⟨[], List.Perm.refl _, List.Forall₂.nil⟩
  run _ h := by cases h

/-- A change event that becomes visible changes nothing below the cursor. -/
theorem Sound.write (h : table.Sound config) {e : ChangeEvent K P} (hpos : 0 < e.eventId)
    (hnew : ∀ x ∈ table.events, x.eventId < e.eventId) :
    { table with events := table.events ++ [e] }.Sound config := by
  have habove : ∀ x ∈ [e], (bronzeCursor table.log).getD 0 < x.eventId := by
    intro x hx
    rw [List.mem_singleton.1 hx]
    rcases h.cursor with hzero | ⟨x, hx, heq⟩
    · omega
    · rw [← heq]
      exact hnew x hx
  refine ⟨?_, ?_, ?_, h.created, ?_, fun run hrun ↦ ?_⟩
  · refine List.pairwise_append.2 ⟨h.increasing, List.pairwise_singleton _ _, fun x hx y hy ↦ ?_⟩
    rw [List.mem_singleton.1 hy]
    exact hnew x hx
  · intro x hx
    rcases List.mem_append.1 hx with hx | hx
    · exact h.positive x hx
    · rw [List.mem_singleton.1 hx]
      exact hpos
  · rcases h.cursor with hzero | ⟨x, hx, heq⟩
    · exact Or.inl hzero
    · exact Or.inr ⟨x, List.mem_append_left _ hx, heq⟩
  · obtain ⟨found, hperm, hrows⟩ := h.holds
    refine ⟨found, ?_, hrows⟩
    rw [PolledLog.upTo_append habove]
    exact hperm
  · have hsound := h.run run hrun
    refine ⟨hsound.state, fun bound hbound ↦ ?_, hsound.rows, hsound.ended⟩
    obtain ⟨hvisible, heq⟩ := hsound.bound bound hbound
    exact ⟨hvisible.trans (List.prefix_append _ _), heq⟩

/-- Maintenance changes no row and no cursor. -/
theorem Sound.optimize (h : table.Sound config) (hrun : table.run = none) (hne : table.log ≠ []) :
    ({ table with log := table.log ++ [⟨[], none⟩] } : ExtractedTable K P).Sound config := by
  have hcursor := bronzeCursor_optimize hne
  refine ⟨h.increasing, h.positive, ?_, fun _ ↦ ?_, ?_, fun run heq ↦ ?_⟩
  · rw [hcursor]
    exact h.cursor
  · rw [hcursor]
    exact h.created hne
  · rw [hcursor]
    show HoldsEvents _ _ (bronzeTableRows (table.log ++ [⟨[], none⟩]))
    rw [bronzeTableRows, List.flatMap_append]
    show HoldsEvents _ _ (_ ++ [])
    rw [List.append_nil]
    exact h.holds
  · have heq : table.run = some run := heq
    rw [hrun] at heq
    cases heq

/-- A step that only changes what the stage knows. -/
theorem Sound.withRun (h : table.Sound config) (run : Option (TableExtraction K P))
    (hrun : ∀ r, run = some r → r.Sound config { table with run := run }) :
    { table with run := run }.Sound config :=
  ⟨h.increasing, h.positive, h.cursor, h.created, h.holds, hrun⟩

/-! ### The steps of a stage -/

/-- The change events that have become visible since the control query are above what it found. -/
theorem Sound.between_visible (h : table.Sound config) {run : TableExtraction K P}
    (hrun : table.run = some run) {bound : Option ℤ} (hbound : run.bound = some bound) {cursor : ℤ}
    (hreached : cursor = run.cursor ∨ run.cursor < cursor ∧ ∃ e ∈ run.visible, e.eventId = cursor) :
    PolledLog.between (fun e ↦ e.eventId) run.cursor cursor table.events =
      PolledLog.between (fun e ↦ e.eventId) run.cursor cursor run.visible := by
  rcases hreached with hsame | ⟨-, e, he, heq⟩
  · rw [hsame, PolledLog.between_self, PolledLog.between_self]
  · obtain ⟨⟨more, hmore⟩, -⟩ := (h.run run hrun).bound bound hbound
    have hincreasing := h.increasing
    rw [← hmore] at hincreasing
    rw [← hmore, ← heq]
    exact PolledLog.between_append (hincreasing.lt_of_append he)

/-- What a stage reads up to its bound is what was visible at its control query. -/
theorem Sound.eventsTo_visible (h : table.Sound config) {run : TableExtraction K P}
    (hrun : table.run = some run) {bound : Option ℤ} (hbound : run.bound = some bound) :
    eventsTo run.cursor bound table.events = eventsTo run.cursor bound run.visible := by
  have heq := ((h.run run hrun).bound bound hbound).2
  rcases bound with - | b
  · rfl
  · obtain ⟨e, he, hid, hlt⟩ := PolledLog.exists_of_bound heq.symm
    exact h.between_visible hrun hbound (Or.inr ⟨hlt, e, he, hid⟩)

/-- **What a stage materializes** and the cursor it makes of it. -/
theorem Sound.materialized (h : table.Sound config) {run : TableExtraction K P}
    (hrun : table.run = some run) (hidle : run.isIdle = false) {rows : List (BronzeEvent K P)}
    (hrows : run.rows = some rows) :
    ∃ bound found, run.bound = some bound ∧ List.Forall₂ ChangeEvent.MakesRow found rows ∧
      found.Perm (PolledLog.between (fun e ↦ e.eventId) run.cursor
        (nextCursor run.cursor rows) run.visible) ∧
      (run.state = none ∨ rows ≠ []) ∧
      (nextCursor run.cursor rows = run.cursor ∨ run.cursor < nextCursor run.cursor rows ∧
        ∃ e ∈ run.visible, e.eventId = nextCursor run.cursor rows) ∧
      found.length = min config.maxEventsPerBatch
        (PolledLog.unread (fun e ↦ e.eventId) run.cursor run.visible).length := by
  have hsound := h.run run hrun
  obtain ⟨bound, found, hbound, hperm, hcollect⟩ := hsound.rows rows hrows
  obtain ⟨hmakes, hids⟩ := makesRow_of_collectEvents hcollect
  obtain ⟨hvisible, heq⟩ := hsound.bound bound hbound
  have hincreasing : PolledLog.Increasing (fun e ↦ e.eventId) run.visible :=
    h.increasing.sublist hvisible.sublist
  rcases bound with - | b
  · -- no unread event, so the table is a missing one
    obtain rfl := List.perm_nil.1 hperm
    obtain rfl := List.forall₂_nil_left_iff.1 hmakes
    have hunread := (PolledLog.bound_eq_none_iff config.maxEventsPerBatch_pos).1 heq.symm
    refine ⟨none, [], hbound, hmakes, ?_, Or.inl ?_, Or.inl rfl, ?_⟩
    · show List.Perm [] (PolledLog.between _ run.cursor run.cursor run.visible)
      rw [PolledLog.between_self]
    · rw [TableExtraction.isIdle, hbound] at hidle
      simpa using hidle
    · rw [hunread]
      exact (Nat.min_zero _).symm
  · obtain ⟨e, he, rfl, hlt⟩ := PolledLog.exists_of_bound heq.symm
    have hcursor : nextCursor run.cursor rows = e.eventId := by
      rw [nextCursor, hids, PolledLog.max_of_perm_between he hlt hperm]
      rfl
    have hlength : found.length = _ := hperm.length_eq.trans
      (congrArg List.length (PolledLog.between_bound hincreasing heq.symm))
    rw [List.length_take] at hlength
    have hne : found ≠ [] := by
      rintro rfl
      have hmem : e ∈ eventsTo run.cursor (some e.eventId) run.visible :=
        List.mem_filter.2 ⟨he, decide_eq_true ⟨hlt, le_rfl⟩⟩
      exact List.not_mem_nil (hperm.mem_iff.2 hmem)
    refine ⟨some e.eventId, found, hbound, hmakes, ?_, Or.inr ?_, Or.inr ?_, hlength⟩
    · rw [hcursor]
      exact hperm
    · rintro rfl
      exact hne (List.forall₂_nil_right_iff.1 hmakes)
    · rw [hcursor]
      exact ⟨hlt, e, he, rfl⟩

/-- **The commit of a stage** takes the table to the new cursor. -/
theorem Sound.append (h : table.Sound config) {run : TableExtraction K P}
    (hrun : table.run = some run) (hidle : run.isIdle = false) (hresult : run.result = none)
    {rows : List (BronzeEvent K P)} (hrows : run.rows = some rows) :
    ({ table with
        log := (appendEvents run.state rows table.log).1
        run := some { run with result := some (appendEvents run.state rows table.log).2 } } :
      ExtractedTable K P).Sound config := by
  have hsound := h.run run hrun
  have hstate := hsound.state hresult
  obtain ⟨bound, read, hbound, hmakes, hperm, hwrites, hreached, hlength⟩ :=
    h.materialized hrun hidle hrows
  obtain ⟨hlog, hversion⟩ := appendEvents_spec hstate hwrites
  set cursor := nextCursor run.cursor rows with hcursor
  have hold : run.cursor = (bronzeCursor table.log).getD 0 := lastEventId_of_tableState hstate
  have hnew : bronzeCursor (table.log ++ [⟨rows, some cursor⟩]) = some cursor :=
    bronzeCursor_concat table.log rows cursor
  have hvisible := (hsound.bound bound hbound).1
  -- the rows read are the events between the two cursors, once each
  have hbetween := h.between_visible hrun hbound hreached
  have hle : run.cursor ≤ cursor := by
    rcases hreached with hsame | ⟨hlt, -⟩
    · exact hsame.ge
    · exact hlt.le
  rw [hlog]
  refine ⟨h.increasing, h.positive, ?_, fun _ ↦ ?_, ?_, ?_⟩
  · show (bronzeCursor (table.log ++ [⟨rows, some cursor⟩])).getD 0 = 0 ∨
      ∃ e ∈ table.events, e.eventId = (bronzeCursor (table.log ++ [⟨rows, some cursor⟩])).getD 0
    rw [hnew, Option.getD_some]
    rcases hreached with hsame | ⟨-, e, he, heq⟩
    · -- no event was read: the cursor is recorded as it was
      rw [hsame, hold]
      exact h.cursor
    · exact Or.inr ⟨e, hvisible.subset he, heq⟩
  · show (bronzeCursor (table.log ++ [⟨rows, some cursor⟩])).isSome = true
    rw [hnew]
    rfl
  · show HoldsEvents _ ((bronzeCursor (table.log ++ [⟨rows, some cursor⟩])).getD 0)
      (bronzeTableRows (table.log ++ [⟨rows, some cursor⟩]))
    obtain ⟨found, hfound, hmakes'⟩ := h.holds
    rw [hnew, bronzeTableRows, List.flatMap_append]
    refine ⟨found ++ read, ?_, List.rel_append hmakes' ?_⟩
    · rw [← hold] at hfound
      -- the events up to the old cursor, and those between it and the new one
      refine List.Perm.trans (hfound.append hperm) ?_
      rw [← hbetween]
      exact PolledLog.upTo_perm hle
    · rw [List.flatMap_singleton]
      exact hmakes
  · intro run' hrun'
    obtain rfl := Option.some.inj hrun'
    refine ⟨nofun, hsound.bound, hsound.rows, fun result heq ↦ ?_⟩
    obtain rfl := Option.some.inj heq
    refine ⟨bound, cursor, hbound, hnew, ?_, hreached, ?_⟩
    · rw [hversion]
      exact (TableLog.lastVersionWhere_concat_of_pos
        (p := fun c : BronzeCommit K P ↦ c.lastEventId.isSome) rfl _).symm
    · exact hperm.length_eq.symm.trans hlength

/-- A stage that finds nothing unread reports the commit that has the cursor. -/
theorem Sound.finishIdle (h : table.Sound config) {run : TableExtraction K P}
    (hrun : table.run = some run) (hidle : run.isIdle = true) (hresult : run.result = none) :
    ({ table with run := some { run with result := some (tableResult run.state 0) } } :
      ExtractedTable K P).Sound config := by
  have hsound := h.run run hrun
  obtain ⟨hexists, hbound⟩ := Bool.and_eq_true_iff.1 hidle
  have hbound : run.bound = some none := of_decide_eq_true hbound
  have hstate := hsound.state hresult
  refine h.withRun _ fun run' hrun' ↦ ?_
  obtain rfl := Option.some.inj hrun'
  refine ⟨nofun, hsound.bound, hsound.rows, fun result heq ↦ ?_⟩
  obtain rfl := Option.some.inj heq
  rcases tableState_spec hstate with ⟨-, hnone⟩ | ⟨s, hs, -, -, hprocessed, hcursor⟩
  · rw [hnone] at hexists
    cases hexists
  · have hunread := (PolledLog.bound_eq_none_iff config.maxEventsPerBatch_pos).1
      (hsound.bound none hbound).2.symm
    have hlast : run.cursor = s.cursor.lastEventId := by
      rw [TableExtraction.cursor, hs]
      rfl
    refine ⟨none, run.cursor, hbound, ?_, ?_, Or.inl rfl, ?_⟩
    · rw [hlast]
      exact hcursor
    · rw [hs]
      exact hprocessed
    · show (PolledLog.between _ run.cursor run.cursor run.visible).length =
        min _ (PolledLog.unread _ run.cursor run.visible).length
      rw [PolledLog.between_self, hunread]
      exact (Nat.min_zero _).symm

/-- The step: every action keeps a table sound. -/
theorem Sound.step (hjdbc : ReadsAllRows jdbc) (h : table.Sound config) {action : TableAction K P}
    (hstep : table.step config jdbc action = some table') : table'.Sound config := by
  cases steps_of_step hstep with
  | write hpos hnew => exact h.write hpos hnew
  | optimize hidle hcreated => exact h.optimize hidle hcreated
  | begin _ hstate =>
    refine h.withRun _ fun run hrun ↦ ?_
    obtain rfl := Option.some.inj hrun
    exact ⟨fun _ ↦ hstate, nofun, nofun, nofun⟩
  | @readBounds run hrun hbound _ =>
    have hsound := h.run run hrun
    -- before the bounds are there nothing has been read
    refine h.withRun _ fun run' hrun' ↦ ?_
    obtain rfl := Option.some.inj hrun'
    refine ⟨hsound.state, fun bound heq ↦ ?_, fun rows hrows ↦ ?_, fun result hresult ↦ ?_⟩
    · obtain rfl := Option.some.inj heq
      exact ⟨List.prefix_refl _, rfl⟩
    · obtain ⟨bound, -, hsome, -⟩ := hsound.rows rows hrows
      rw [hbound] at hsome
      cases hsome
    · obtain ⟨bound, -, hsome, -⟩ := hsound.ended result hresult
      rw [hbound] at hsome
      cases hsome
  | @materialize run bound found rows hrun hbound hresult hfound hcollect =>
    have hsound := h.run run hrun
    refine h.withRun _ fun run' hrun' ↦ ?_
    obtain rfl := Option.some.inj hrun'
    refine ⟨hsound.state, hsound.bound, fun rows' heq ↦ ?_, fun result hsome ↦ ?_⟩
    · obtain rfl := Option.some.inj heq
      refine ⟨bound, found, hbound, ?_, hcollect⟩
      show found.Perm (eventsTo run.cursor bound run.visible)
      rw [← h.eventsTo_visible hrun hbound]
      exact perm_of_readEvents hjdbc hfound
    · -- the table is not done yet
      have hsome : run.result = some result := hsome
      rw [hresult] at hsome
      cases hsome
  | finishIdle hrun hidle hresult => exact h.finishIdle hrun hidle hresult
  | finish hrun hbusy hresult hrows => exact h.append hrun hbusy hresult hrows
  | killed => exact h.withRun none nofun
  | complete => exact h.withRun none nofun

end ExtractedTable

end LakehousePipeline
