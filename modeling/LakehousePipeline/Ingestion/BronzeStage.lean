import LakehousePipeline.Ingestion.ExtractToBronze
import LakehousePipeline.Silver.Lake

/-!
# The Bronze stage of several tables

`BronzeExtractor.run` takes its tables through a stage together: it begins with all of them, reads
all upper bounds in one query, and ends when each has a result. In between it works on them in any
order, and change events of any table become visible. Seen from one table that is a stage of the
table (`tableAction`, `step_spec`), so what holds of a table holds of each (`extractedOnce_of_run`).

The tables share two things. Event ids come from one sequence, so an event that becomes visible is
above those of all tables; and maintenance and other extractions stay out while a stage is under
way. Both are in `ExtractionWorld.allows`, beside the step of the table itself. That ids become
visible in increasing order is an assumption on the writers of the source: with overlapping
transactions an id below a cursor could appear after the cursor has passed it.
-/

namespace LakehousePipeline

/-- The source tables with their Bronze tables. -/
abbrev ExtractionWorld := (t : SilverTable) → ExtractedTable ℤ (SilverColumns t)

/-- What happens to them. -/
inductive ExtractionAction
  /-- A change event becomes visible. -/
  | write (t : SilverTable) (e : ChangeEvent ℤ (SilverColumns t))
  /-- A commit of maintenance. -/
  | optimize (t : SilverTable)
  /-- `extract_all_to_bronze` begins, for some tables. -/
  | begin (batchId : Text) (tables : SilverTable → Bool)
  /-- `read_batch_upper_bounds`. -/
  | readBounds
  /-- `_materialize_events` of a table. -/
  | materialize (t : SilverTable)
  /-- The rest of `_run_table`. -/
  | finish (t : SilverTable)
  /-- The stage is killed, or a step has raised. -/
  | killed
  /-- All tables have a result. -/
  | complete

namespace ExtractionWorld

variable (config : PostgresConfig)
  (jdbc : (t : SilverTable) → PartitionedRead ℤ (SilverColumns t)) (world : ExtractionWorld)

/-- No table yet, and no change event. -/
def empty : ExtractionWorld :=
  fun _ ↦ .empty

/-- What a table of the stage under way takes part in. -/
def ofRun (t : SilverTable) (action : TableAction ℤ (SilverColumns t)) :
    Option (TableAction ℤ (SilverColumns t)) :=
  if (world t).run.isSome then some action else none

/-- What an action is for a table; none where it is nothing. -/
def tableAction : ExtractionAction → (t : SilverTable) → Option (TableAction ℤ (SilverColumns t))
  | .write t e => Function.update (fun _ ↦ none) t (some (.write e))
  | .optimize t => Function.update (fun _ ↦ none) t (some .optimize)
  | .begin batchId tables => fun t ↦ if tables t then some (.begin batchId) else none
  | .readBounds => fun t ↦ world.ofRun t .readBounds
  | .materialize t => Function.update (fun _ ↦ none) t (some .materialize)
  | .finish t => Function.update (fun _ ↦ none) t (some .finish)
  | .killed => fun t ↦ world.ofRun t .killed
  | .complete => fun t ↦ world.ofRun t .complete

/-- `event_id` is one sequence for all tables, and no maintenance and no other extraction runs
during a stage. -/
def allows : ExtractionAction → Bool
  | .write _ e => silverTables.all fun t ↦ (world t).events.all fun x ↦ x.eventId < e.eventId
  | .optimize _ | .begin .. => silverTables.all fun t ↦ (world t).run.isNone
  | _ => true

/-- What becomes of a table. -/
def next (action : ExtractionAction) (t : SilverTable) :
    Option (ExtractedTable ℤ (SilverColumns t)) :=
  match world.tableAction action t with
  | none => some (world t)
  | some own => (world t).step config (jdbc t) own

/-- One action: it is possible where it is for each table. -/
def step (action : ExtractionAction) : Option ExtractionWorld :=
  if world.allows action && silverTables.all fun t ↦ (world.next config jdbc action t).isSome then
    some fun t ↦ (world.next config jdbc action t).getD (world t)
  else none

variable {config jdbc world} {world' : ExtractionWorld} {action : ExtractionAction}

/-- **An action of the stage is an action of each table.** -/
theorem step_spec (hstep : world.step config jdbc action = some world') (t : SilverTable) :
    world.next config jdbc action t = some (world' t) := by
  obtain ⟨hguard, heq⟩ := Option.ite_none_right_eq_some.1 hstep
  obtain rfl := Option.some.inj heq
  have hall := List.all_eq_true.1 (Bool.and_eq_true_iff.1 hguard).2 t (mem_silverTables t)
  obtain ⟨table, htable⟩ := Option.isSome_iff_exists.1 hall
  show _ = some ((world.next config jdbc action t).getD (world t))
  rw [htable]
  rfl

/-- Every action keeps every table sound. -/
theorem sound_step (hjdbc : ∀ t, ReadsAllRows (jdbc t)) (h : ∀ t, (world t).Sound config)
    (hstep : world.step config jdbc action = some world') (t : SilverTable) :
    (world' t).Sound config := by
  have hnext := step_spec hstep t
  rw [next] at hnext
  split at hnext
  · rw [← Option.some.inj hnext]
    exact h t
  · exact (h t).step (hjdbc t) hnext

/-- Every table is sound in every reachable state. -/
theorem sound_of_run (hjdbc : ∀ t, ReadsAllRows (jdbc t)) {actions : List ExtractionAction}
    (hrun : Runs.run (fun w a ↦ ExtractionWorld.step config jdbc w a) empty actions = some world)
    (t : SilverTable) : (world t).Sound config :=
  Runs.run_invariant_of_step (fun w : ExtractionWorld ↦ ∀ t, (w t).Sound config)
    (fun _ _ _ h hstep ↦ sound_step hjdbc h hstep) (fun _ ↦ ExtractedTable.sound_empty) hrun t

/-- **What a completed stage has done to a table**: it has taken the table from the cursor it found
to the one the table has now, over as many events as the limit allows of those unread at the control
query, and it reports the commit that has the cursor. -/
structure Extracted (config : PostgresConfig) {t : SilverTable}
    (run : TableExtraction ℤ (SilverColumns t)) (table : ExtractedTable ℤ (SilverColumns t)) :
    Prop where
  /-- The events read. -/
  advances : ∃ cursor, bronzeCursor table.log = some cursor ∧
    (PolledLog.between (fun e ↦ e.eventId) run.cursor cursor table.events).length =
      min config.maxEventsPerBatch
        (PolledLog.unread (fun e ↦ e.eventId) run.cursor run.visible).length
  /-- The version in the manifest. -/
  reports : ∃ result, run.result = some result ∧
    (table.log[result.deltaVersion]?.bind fun c ↦ c.lastEventId) = bronzeCursor table.log

/-- **Bronze extraction is exactly-once.** Whatever becomes visible in the source, however stages
are retried and killed and whatever maintenance runs between them, each Bronze table holds the
change events up to the cursor in its last commit of the extraction, each once; and a stage that
ends has advanced the cursor of each of its tables and reports the commit with the cursor. -/
theorem extractedOnce_of_run (hjdbc : ∀ t, ReadsAllRows (jdbc t)) {actions : List ExtractionAction}
    (hrun : Runs.run (fun w a ↦ ExtractionWorld.step config jdbc w a) empty actions = some world) :
    (∀ t, (world t).log = [] ∨ ∃ cursor, bronzeCursor (world t).log = some cursor ∧
        HoldsEvents (world t).events cursor (bronzeTableRows (world t).log)) ∧
      ∀ world', world.step config jdbc .complete = some world' → ∀ t run,
        (world t).run = some run → Extracted config run (world' t) := by
  have hsound := sound_of_run hjdbc hrun
  refine ⟨fun t ↦ ?_, fun world' hstep t run hstage ↦ ?_⟩
  · rcases List.eq_nil_or_concat (world t).log with hnil | ⟨init, c, hlog⟩
    · exact Or.inl hnil
    · have hne : (world t).log ≠ [] := by
        rw [hlog, List.concat_eq_append]
        exact List.concat_ne_nil c init
      obtain ⟨cursor, hcursor⟩ := Option.isSome_iff_exists.1 ((hsound t).created hne)
      refine Or.inr ⟨cursor, hcursor, ?_⟩
      have hholds := (hsound t).holds
      rwa [hcursor] at hholds
  · have hcomplete : world.tableAction .complete t = some .complete := by
      show (if (world t).run.isSome then some _ else none) = _
      rw [hstage]
      rfl
    have hnext := step_spec hstep t
    rw [next, hcomplete] at hnext
    obtain ⟨run', hrun', hended⟩ := Option.bind_eq_some_iff.1 hnext
    obtain rfl := Option.some.inj (hstage.symm.trans hrun')
    obtain ⟨hresult, heq⟩ := Option.ite_none_right_eq_some.1 hended
    obtain ⟨result, hresult⟩ := Option.isSome_iff_exists.1 hresult
    obtain ⟨bound, cursor, hbound, hended⟩ := ((hsound t).run run hstage).ended result hresult
    rw [← Option.some.inj heq]
    refine ⟨⟨cursor, hended.cursor_eq, ?_⟩, result, hresult, ?_⟩
    · rw [← hended.advances]
      exact congrArg List.length ((hsound t).between_visible hstage hbound hended.reached)
    · show ((world t).log[result.deltaVersion]?.bind _) = _
      rw [hended.version]
      rfl

/-! ### A stage that is killed after its append -/

/-- Batches of two events, in one partition. -/
def smallPostgres : PostgresConfig where
  maxJdbcPartitions := 1
  targetEventsPerPartition := 10
  maxEventsPerBatch := 2
  maxJdbcPartitions_pos := le_rfl
  targetEventsPerPartition_pos := by decide
  maxEventsPerBatch_pos := by decide

/-- One partition has all rows of the query. -/
def onePartition (t : SilverTable) : PartitionedRead ℤ (SilverColumns t) :=
  fun _ _ _ rows ↦ rows

/-- A change event of a shop. -/
def shopChange (id : ℤ) : ChangeEvent ℤ ShopColumns where
  eventId := id
  key := some 7
  createdAt := 10
  payload :=
    { publicShopId := none
      shopName := some ['a']
      shopSlug := none
      status := none
      updatedAt := some 10 }
  operation := some .update
  occurredAt := some (10 + id)

/-- A stage of the shops, up to its last step. -/
def shopStage (batchId : Text) : List ExtractionAction :=
  [.begin batchId fun t ↦ t = .shops, .readBounds, .materialize .shops, .finish .shops]

/-- Of five events the first stage reads two and is killed after its append; then comes maintenance,
and a second stage, in which an event is written and the read is retried. -/
def shopExtractions : List ExtractionAction :=
  [.write .shops (shopChange 1), .write .shops (shopChange 3), .write .shops (shopChange 4)] ++
    shopStage ['b'] ++
    [.killed, .optimize .shops, .begin ['c'] (fun t ↦ t = .shops), .readBounds,
      .write .shops (shopChange 6), .materialize .shops, .materialize .shops, .finish .shops]

/-- What becomes of the shops: the second stage reads the third event, and leaves the last one. -/
theorem extractedOnce_of_run_shops : ∃ world world' : ExtractionWorld,
    Runs.run (fun w a ↦ ExtractionWorld.step smallPostgres onePartition w a) empty
        shopExtractions = some world ∧
      world.step smallPostgres onePartition .complete = some world' ∧
      (∀ t, (world t).log = [] ∨ ∃ cursor, bronzeCursor (world t).log = some cursor ∧
        HoldsEvents (world t).events cursor (bronzeTableRows (world t).log)) ∧
      ∀ run, (world .shops).run = some run → Extracted smallPostgres run (world' .shops) := by
  have hjdbc : ∀ t, ReadsAllRows (onePartition t) := fun _ _ _ _ _ _ _ ↦ List.Perm.refl _
  have hrun : ((Runs.run (fun w a ↦ ExtractionWorld.step smallPostgres onePartition w a) empty
      shopExtractions).any fun world ↦
    (world.step smallPostgres onePartition .complete).any fun world' ↦
      bronzeCursor (world' .shops).log = some 4) = true := by
    decide +kernel
  obtain ⟨world, hworld, hrun⟩ := (Option.any_eq_true _ _).1 hrun
  obtain ⟨world', hstep, -⟩ := (Option.any_eq_true _ _).1 hrun
  obtain ⟨hholds, hextracted⟩ := extractedOnce_of_run hjdbc hworld
  exact ⟨world, world', hworld, hstep, hholds, hextracted world' hstep .shops⟩

end ExtractionWorld

end LakehousePipeline
