import LakehousePipeline.Silver.Convergence

/-!
# Batch increments against the snapshot

A table that only Batch runs write: the first run takes the current rows of the Bronze table as they
are, and each later one merges the rows of the Bronze commits since. `incrementalSilver_eq_snapshot`
compares what they leave with the current rows of the whole Bronze table, for any split into runs.

The merge updates every column but `created_at`. So a key keeps the `created_at` its row was first
written with, which is that of the newest event in the first run with the key, while the snapshot
has that of the newest event of all. In all other columns, tombstones and re-inserts included, the
two agree.
-/

namespace LakehousePipeline

variable {K P : Type}

/-- The event is one of Batch Bronze; its id is the key of `change_events`. -/
def BronzeEvent.IsBatch (e : BronzeEvent K P) : Prop :=
  e.isStreamingCdc = false ∧ ∃ id, e.eventId = .number id

/-- Batch change events, each with an id of its own. -/
structure IsBatchLog (events : List (BronzeEvent K P)) : Prop where
  /-- The events are Batch events. -/
  batch : ∀ e ∈ events, e.IsBatch
  /-- `event_id` is the primary key of `change_events`. -/
  nodup : (events.map fun e ↦ e.eventId).Nodup

/-- Batch events with one sequence have one id. -/
theorem BronzeEvent.IsBatch.eventId_eq {e e' : BronzeEvent K P} (he : e.IsBatch) (he' : e'.IsBatch)
    (h : e.sequence = e'.sequence) : e.eventId = e'.eventId := by
  obtain ⟨hmode, id, hid⟩ := he
  obtain ⟨hmode', id', hid'⟩ := he'
  have hcolumns : (e.sourceEventSequence : WithBot ℤ) = (e'.sourceEventSequence : WithBot ℤ) := by
    have htail := List.tail_eq_of_cons_eq (List.tail_eq_of_cons_eq h)
    exact List.head_eq_of_cons_eq htail
  have hsequence : (some id : Option ℤ) = some id' := by
    simpa [BronzeEvent.sourceEventSequence, BronzeEvent.ingestionMode, hmode, hmode', hid, hid',
      BronzeEventId.asLong] using hcolumns
  rw [hid, hid', Option.some.inj hsequence]

/-- The rows of a Batch log have distinct sequences, in whatever pieces they are merged. -/
theorem IsBatchLog.distinctSequences [DecidableEq K] {log events : List (BronzeEvent K P)}
    (h : IsBatchLog log) (hsub : events ⊆ log) : DistinctSequences [.batch events] := by
  intro e he e' he' _ hseq
  have hin : ∀ x ∈ [SilverPiece.batch events].flatMap SilverPiece.events, x ∈ log := by
    intro x hx
    obtain ⟨piece, hpiece, hx⟩ := List.mem_flatMap.1 hx
    rw [List.mem_singleton.1 hpiece] at hx
    exact hsub hx
  exact List.inj_on_of_nodup_map h.nodup (hin e he) (hin e' he')
    ((h.batch e (hin e he)).eventId_eq (h.batch e' (hin e' he')) hseq)

variable [DecidableEq K]

/-! ### The runs -/

/-- `_replace_from_snapshot`: the current rows of the Bronze table. -/
def snapshotSilver (fns : SparkFunctions) (clean : P → P)
    (commits : List (List (BronzeEvent K P))) : List (SilverRow K P) :=
  transformTable fns clean commits.flatten

/-- `run_table` of a Batch run on a table that is there, with the Bronze commits since the last run.
Without a new commit the run does nothing. -/
def incrementalRun [DecidableEq P] (fns : SparkFunctions) (clean : P → P)
    (table : List (SilverRow K P)) (commits : List (List (BronzeEvent K P))) :
    Option (List (SilverRow K P)) :=
  if commits.isEmpty then some table
  else mergePiece fns clean table (.batch commits.flatten)

/-- The table after Batch runs: the first one creates it. -/
def incrementalSilver [DecidableEq P] (fns : SparkFunctions) (clean : P → P)
    (first : List (List (BronzeEvent K P))) (later : List (List (List (BronzeEvent K P)))) :
    Option (List (SilverRow K P)) :=
  later.foldlM (incrementalRun fns clean) (snapshotSilver fns clean first)

/-! ### The row of a key -/

/-- The newest event of a key in Bronze commits. -/
def newestIn (k : K) (commits : List (List (BronzeEvent K P))) : Option (BronzeEvent K P) :=
  (SilverPiece.batch commits.flatten).newestOf k

/-- The event the row of a key was first written from: the newest in the first run with the key. -/
def firstWritten (k : K) (runs : List (List (List (BronzeEvent K P)))) :
    Option (BronzeEvent K P) :=
  runs.findSome? (newestIn k)

/-- The row with the `created_at` of its first write. -/
def SilverRow.withCreatedAt (row : SilverRow K P) (written : Option (BronzeEvent K P)) :
    SilverRow K P :=
  { row with createdAt := (written.map fun e ↦ e.createdAt).getD row.createdAt }

/-- What the runs leave of a key. -/
def keptRow (fns : SparkFunctions) (clean : P → P) (k : K)
    (runs : List (List (List (BronzeEvent K P)))) : Option (SilverRow K P) :=
  (newestIn k runs.flatten).map fun e ↦ (mergedRow fns clean e).withCreatedAt (firstWritten k runs)

theorem newestIn_append (k : K) (commits commits' : List (List (BronzeEvent K P))) :
    newestIn k (commits ++ commits') =
      (newestIn k commits').elim (newestIn k commits)
        (LastWriterWins.write (fun e ↦ e.sequence) (newestIn k commits)) := by
  have hsplit : eventsOf k (commits ++ commits').flatten =
      eventsOf k commits.flatten ++ eventsOf k commits'.flatten := by
    rw [List.flatten_append, eventsOf, List.filter_append]
    rfl
  show LastWriterWins.newest _ (eventsOf k (commits ++ commits').flatten) = _
  rw [hsplit, LastWriterWins.newest_append]
  rfl

/-- A key has been written once some run has had an event of it. -/
theorem firstWritten_eq_none_iff {k : K} {runs : List (List (List (BronzeEvent K P)))} :
    firstWritten k runs = none ↔ newestIn k runs.flatten = none := by
  induction runs with
  | nil => exact iff_of_true rfl rfl
  | cons run rest ih =>
    rw [firstWritten, List.findSome?_cons, List.flatten_cons, newestIn_append]
    rcases hrun : newestIn k run with - | e
    · rcases hrest : newestIn k rest.flatten with - | e'
      · exact iff_of_true (ih.2 hrest) rfl
      · refine iff_of_false (fun hnone ↦ ?_) (Option.some_ne_none e')
        rw [ih.1 hnone] at hrest
        cases hrest
    · refine iff_of_false (Option.some_ne_none e) ?_
      rcases hrest : newestIn k rest.flatten with - | e'
      · exact Option.some_ne_none e
      · show LastWriterWins.write _ (some e) e' ≠ none
        rcases lt_or_ge e.sequence e'.sequence with hlt | hge
        · rw [LastWriterWins.write_of_lt hlt]
          exact Option.some_ne_none e'
        · rw [LastWriterWins.write_of_ge hge]
          exact Option.some_ne_none e

theorem firstWritten_concat (k : K) (runs : List (List (List (BronzeEvent K P))))
    (run : List (List (BronzeEvent K P))) :
    firstWritten k (runs ++ [run]) = (firstWritten k runs).or (newestIn k run) := by
  rw [firstWritten, List.findSome?_append, List.findSome?_singleton]
  rfl

omit [DecidableEq K] in
/-- A row without a first write is its own first write. -/
@[simp] theorem SilverRow.withCreatedAt_none (row : SilverRow K P) : row.withCreatedAt none = row :=
  rfl

/-- The row of a key in the snapshot. -/
theorem lookup_snapshotSilver (fns : SparkFunctions) (clean : P → P)
    {log : List (BronzeEvent K P)} (h : IsBatchLog log) {commits : List (List (BronzeEvent K P))}
    (hsub : commits.flatten ⊆ log) (k : K) :
    MergeInto.lookup (fun row ↦ row.key) k (snapshotSilver fns clean commits) =
      (newestIn k commits).map (mergedRow fns clean) :=
  lookup_transformTable_eq fns clean (h.distinctSequences hsub) (List.mem_singleton_self _) k

/-! ### The step and the run -/

section Run

variable [DecidableEq P] (fns : SparkFunctions) (clean : P → P)

omit [DecidableEq K] [DecidableEq P] in
/-- A Batch merge on a row that is there: a newer row comes in with the `created_at` of the old. -/
theorem mergeSilverRow_batch (e e' : BronzeEvent K P) (written : Option (BronzeEvent K P))
    (hwritten : written.isSome = true) :
    mergeSilverRow false (some ((mergedRow fns clean e).withCreatedAt written))
        (some (mergedRow fns clean e')) =
      (LastWriterWins.write (fun e ↦ e.sequence) (some e) e').map
        fun e ↦ (mergedRow fns clean e).withCreatedAt written := by
  obtain ⟨w, rfl⟩ := Option.isSome_iff_exists.1 hwritten
  rcases lt_or_ge e.sequence e'.sequence with hlt | hge
  · rw [LastWriterWins.write_of_lt hlt]
    exact mergeSilverRow_of_lt hlt
  · rw [LastWriterWins.write_of_ge hge]
    exact mergeSilverRow_of_ge hge

/-- The step: a run keeps "each key holds its newest event under its first `created_at`". -/
theorem keptRow_incrementalRun {log : List (BronzeEvent K P)} (h : IsBatchLog log)
    {runs : List (List (List (BronzeEvent K P)))} {run : List (List (BronzeEvent K P))}
    (hsub : run.flatten ⊆ log) {table : List (SilverRow K P)}
    (hkeys : (table.map fun row ↦ row.key).Nodup)
    (htable : ∀ k, MergeInto.lookup (fun row ↦ row.key) k table = keptRow fns clean k runs) :
    ∃ table', incrementalRun fns clean table run = some table' ∧
      (table'.map fun row ↦ row.key).Nodup ∧
      ∀ k, MergeInto.lookup (fun row ↦ row.key) k table' =
        keptRow fns clean k (runs ++ [run]) := by
  obtain ⟨table', hmerge, hkeys', hlookup⟩ :=
    lookup_mergePiece fns clean hkeys (.batch run.flatten)
  have hmerged : ∀ k, MergeInto.lookup (fun row ↦ row.key) k table' =
      keptRow fns clean k (runs ++ [run]) := by
    intro k
    have hrun : MergeInto.lookup (fun row ↦ row.key) k
        (transformTable fns clean (SilverPiece.batch run.flatten).events) =
        (newestIn k run).map (mergedRow fns clean) := lookup_snapshotSilver fns clean h hsub k
    rw [hlookup, htable, hrun, keptRow, keptRow, List.flatten_append, List.flatten_singleton,
      newestIn_append, firstWritten_concat]
    rcases hheld : newestIn k runs.flatten with - | e
    · -- the key is written for the first time, or not yet
      rw [firstWritten_eq_none_iff.2 hheld, Option.none_or]
      rcases newestIn k run with - | e' <;> rfl
    · have hwritten : (firstWritten k runs).isSome = true := by
        rw [Option.isSome_iff_ne_none, Ne, firstWritten_eq_none_iff, hheld]
        exact Option.some_ne_none e
      rw [Option.or_of_isSome hwritten]
      rcases newestIn k run with - | e'
      · rfl
      · exact mergeSilverRow_batch fns clean e e' _ hwritten
  rcases run with - | ⟨commit, rest⟩
  · -- a run without a new commit leaves the table
    refine ⟨table, rfl, hkeys, fun k ↦ ?_⟩
    rw [htable, keptRow, keptRow, List.flatten_append, firstWritten_concat]
    show _ = Option.map _ (newestIn k (runs.flatten ++ [].flatten))
    rw [List.flatten_nil, List.append_nil]
    show _ = Option.map (fun e ↦ (mergedRow fns clean e).withCreatedAt
      ((firstWritten k runs).or none)) _
    rw [Option.or_none]
  · exact ⟨table', hmerge, hkeys', hmerged⟩

/-- The run: from any table that holds what earlier runs leave. -/
theorem keptRow_incrementalRuns {log : List (BronzeEvent K P)} (h : IsBatchLog log)
    (later : List (List (List (BronzeEvent K P)))) (hsub : later.flatten.flatten ⊆ log)
    (runs : List (List (List (BronzeEvent K P)))) (table : List (SilverRow K P))
    (hkeys : (table.map fun row ↦ row.key).Nodup)
    (htable : ∀ k, MergeInto.lookup (fun row ↦ row.key) k table = keptRow fns clean k runs) :
    ∃ table', later.foldlM (incrementalRun fns clean) table = some table' ∧
      (table'.map fun row ↦ row.key).Nodup ∧
      ∀ k, MergeInto.lookup (fun row ↦ row.key) k table' =
        keptRow fns clean k (runs ++ later) := by
  induction later generalizing runs table with
  | nil => exact ⟨table, rfl, hkeys, by simpa using htable⟩
  | cons run rest ih =>
    rw [List.flatten_cons, List.flatten_append] at hsub
    obtain ⟨hrun, hrest⟩ := List.append_subset.1 hsub
    obtain ⟨table₁, hstep, hkeys₁, htable₁⟩ := keptRow_incrementalRun fns clean h hrun hkeys htable
    obtain ⟨table₂, hsteps, hkeys₂, htable₂⟩ := ih hrest (runs ++ [run]) table₁ hkeys₁ htable₁
    refine ⟨table₂, ?_, hkeys₂, fun k ↦ ?_⟩
    · rw [List.foldlM_cons, hstep]
      exact hsteps
    · rw [htable₂, List.append_assoc]
      rfl

/-- The table after Batch runs has of each key the row that they keep. -/
theorem keptRow_incrementalSilver {first : List (List (BronzeEvent K P))}
    {later : List (List (List (BronzeEvent K P)))}
    (hlog : IsBatchLog (first :: later).flatten.flatten) :
    ∃ table, incrementalSilver fns clean first later = some table ∧
      (table.map fun row ↦ row.key).Nodup ∧
      ∀ k, MergeInto.lookup (fun row ↦ row.key) k table =
        keptRow fns clean k (first :: later) := by
  have hsub : first.flatten ++ later.flatten.flatten ⊆ (first :: later).flatten.flatten := by
    rw [List.flatten_cons, List.flatten_append]
    exact List.Subset.refl _
  obtain ⟨hfirst, hlater⟩ := List.append_subset.1 hsub
  refine keptRow_incrementalRuns fns clean hlog later hlater [first]
    (snapshotSilver fns clean first) (nodup_key_transformTable fns clean _) fun k ↦ ?_
  -- the first run writes the rows of its snapshot, with the `created_at` they have there
  rw [lookup_snapshotSilver fns clean hlog hfirst, keptRow, List.flatten_singleton, firstWritten,
    List.findSome?_singleton]
  rcases newestIn k first with - | e <;> rfl

/-- **Batch increments leave the snapshot, but for `created_at`**: of each key the row of the
snapshot of the whole Bronze table, with the `created_at` of the row's first write. -/
theorem incrementalSilver_eq_snapshot (first : List (List (BronzeEvent K P)))
    (later : List (List (List (BronzeEvent K P))))
    (hlog : IsBatchLog (first :: later).flatten.flatten) :
    ∃ table, incrementalSilver fns clean first later = some table ∧
      (table.map fun row ↦ row.key).Nodup ∧
      ∀ k, MergeInto.lookup (fun row ↦ row.key) k table =
        (MergeInto.lookup (fun row ↦ row.key) k
          (snapshotSilver fns clean (first :: later).flatten)).map
            fun row ↦ row.withCreatedAt (firstWritten k (first :: later)) := by
  obtain ⟨table, hrun, hkeys, hkept⟩ := keptRow_incrementalSilver fns clean hlog
  refine ⟨table, hrun, hkeys, fun k ↦ ?_⟩
  rw [hkept, lookup_snapshotSilver fns clean hlog (List.Subset.refl _), Option.map_map]
  rfl

end Run

/-! ### A key that is inserted again -/

/-- The later delete of key 7. -/
def batchDelete : BronzeEvent ℤ ℤ :=
  { batchInsert with
    operation := .delete
    eventOccurredAt := some 20
    eventId := .number 2 }

/-- Key 7 is inserted again, with a new `created_at`. -/
def batchReinsert : BronzeEvent ℤ ℤ :=
  { batchInsert with
    createdAt := 30
    payload := 200
    eventOccurredAt := some 30
    eventId := .number 3 }

theorem isBatchLog_reinsert : IsBatchLog [batchInsert, batchDelete, batchReinsert] where
  batch := by
    simp [BronzeEvent.IsBatch, batchInsert, batchDelete, batchReinsert]
  nodup := by decide

theorem incrementalSilver_eq_snapshot_reinsert :
    ∃ table, incrementalSilver SparkFunctions.plain id [[batchInsert]]
        [[[batchDelete]], [], [[batchReinsert]]] = some table ∧
      (table.map fun row ↦ row.key).Nodup ∧
      ∀ k, MergeInto.lookup (fun row ↦ row.key) k table =
        (MergeInto.lookup (fun row ↦ row.key) k (snapshotSilver SparkFunctions.plain id
          [[[batchInsert]], [[batchDelete]], [], [[batchReinsert]]].flatten)).map
            fun row ↦ row.withCreatedAt
              (firstWritten k [[[batchInsert]], [[batchDelete]], [], [[batchReinsert]]]) :=
  incrementalSilver_eq_snapshot SparkFunctions.plain id [[batchInsert]]
    [[[batchDelete]], [], [[batchReinsert]]] isBatchLog_reinsert

/-- **A re-insert keeps the old `created_at`** where each event is merged by a run of its own, and
shows the new one in the snapshot. -/
theorem incrementalSilver_reinsert :
    IsBatchLog [[[batchInsert]], [[batchDelete]], [], [[batchReinsert]]].flatten.flatten ∧
      ∀ table, incrementalSilver SparkFunctions.plain id [[batchInsert]]
          [[[batchDelete]], [], [[batchReinsert]]] = some table →
        ¬∀ k, (MergeInto.lookup (fun row ↦ row.key) k table).map
            (fun row ↦ (row.business, row.isDeleted)) =
          (MergeInto.lookup (fun row ↦ row.key) k (snapshotSilver SparkFunctions.plain id
            [[[batchInsert]], [[batchDelete]], [], [[batchReinsert]]].flatten)).map
              fun row ↦ (row.business, row.isDeleted) := by
  refine ⟨isBatchLog_reinsert, fun table htable hsame ↦ ?_⟩
  obtain rfl :=
    Option.some.inj ((show _ = some [{ mergedRow SparkFunctions.plain id batchReinsert with
    createdAt := 10 }] by decide).symm.trans htable)
  exact absurd (hsame 7) (by decide)

end LakehousePipeline
