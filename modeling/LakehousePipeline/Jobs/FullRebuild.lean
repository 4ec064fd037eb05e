import LakehousePipeline.Jobs.RunBatch

/-!
# Full rebuilds of Silver

What a Silver stage may do to a table that CDC writes too. Both merges are guarded by the sequence
of the row each key holds and append to the change history, so they forget nothing. A replacement
writes the table and its history anew from Batch Bronze, and so forgets what only CDC has brought
(`not_keeps_fullRebuild`).

`keeps_iff_of_run` says when exactly an action forgets nothing (`Spares`): a replacement must find
in Batch Bronze an event at or above the row of each key, and every event of the history.

## What counts as forgetting

`Keeps` compares two states of Silver. A row may give way to a row of its key that is not older, and
a tombstone is a row like any other; but a key that had a row must have one, and no event may leave
a change history. The relation is reflexive and transitive, so what holds of each action of a run
holds of the run.

## The three ways a stage writes

A stage merges the changes of Bronze, merges the snapshot of it, or replaces the table; the last is
taken on a forced full rebuild and where there is no table yet (`tableRun_eq_replace`). The merges
need no condition (`keeps_mergeRows`). For a replacement the condition is necessary as well
(`keeps_replaceRows_iff`): the new table has for each key the newest event of Batch Bronze, and that
is at or above the old row exactly if Bronze has some event that is.

A stage may be killed between the two tables it writes. It replaces the current rows first, so a
killed replacement may have forgotten rows, but it leaves the history as it was; the condition on
the history is therefore asked of the others only.
-/

namespace LakehousePipeline

namespace BatchLake

variable {W : Type} [DecidableEq W]

/-! ### What is kept -/

/-- **Nothing is forgotten**: each key still has a row, at or above the one it had, and each event
of the change histories is still there. -/
structure Keeps (world world' : BatchLake W) : Prop where
  /-- The row of a key stays or gives way to one that is not older, tombstones included. -/
  rows : ∀ t k row, MergeInto.lookup (fun row ↦ row.key) k (world.lakehouse.silver.currentRows t) =
    some row → ∃ row', MergeInto.lookup (fun row ↦ row.key) k
      (world'.lakehouse.silver.currentRows t) = some row' ∧ row.sequence ≤ row'.sequence
  /-- The events of a change history stay. -/
  history : ∀ t, world.lakehouse.silver.history t ⊆ world'.lakehouse.silver.history t

/-- The keys of each Silver table are distinct. -/
def KeysDistinct (world : BatchLake W) : Prop :=
  ∀ t, ((world.lakehouse.silver.currentRows t).map fun row ↦ row.key).Nodup

/-- The rows of Batch Bronze. -/
def allBronzeRows (world : BatchLake W) (t : SilverTable) :
    List (BronzeEvent ℤ (SilverColumns t)) :=
  world.bronzeRows t 0 (world.bronze t).length

/-- Batch Bronze has an event at or above the row of each key. -/
def RowsInBronze (world : BatchLake W) (t : SilverTable) : Prop :=
  ∀ k row,
    MergeInto.lookup (fun row ↦ row.key) k (world.lakehouse.silver.currentRows t) = some row →
      ∃ e ∈ world.allBronzeRows t, e.key = k ∧ row.sequence ≤ e.sequence

/-- Batch Bronze has every event of the change history. -/
def HistoryInBronze (world : BatchLake W) (fns : SparkFunctions) (clean : Cleaning)
    (t : SilverTable) : Prop :=
  world.lakehouse.silver.history t ⊆
    changeHistory fns t.name (clean t) (world.allBronzeRows t)

/-- The action replaces nothing that Batch Bronze does not have. A run that is killed after it has
replaced the table leaves the history. -/
def Spares (world : BatchLake W) (fns : SparkFunctions) (clean : Cleaning) : BatchAction W → Prop
  | .runTable _ t fullRebuild killed =>
    (fullRebuild = true ∨ world.lakehouse.silver.tables t = []) → world.RowsInBronze t ∧
      (killed = false → t.hasChangeHistory = true → world.HistoryInBronze fns clean t)
  | _ => True

/-- A commit that is not of a batch run is a CDC merge, or maintenance. -/
def FromCdc (world : BatchLake W) (fns : SparkFunctions) (clean : Cleaning) : BatchAction W → Prop
  | .otherCommit t c => c.rows = world.lakehouse.silver.currentRows t ∨
    ∃ events, mergePiece fns (clean t) (world.lakehouse.silver.currentRows t) (.cdc events) =
      some c.rows
  | _ => True

variable {world world' world'' : BatchLake W} {fns : SparkFunctions} {hash : BusinessHash}
  {clean : Cleaning} {writer : W} {t : SilverTable}

omit [DecidableEq W] in
/-- What stays as it is forgets nothing. -/
theorem Keeps.refl (world : BatchLake W) : world.Keeps world where
  rows _ _ row h := ⟨row, h, le_rfl⟩
  history _ := List.Subset.refl _

omit [DecidableEq W] in
/-- Two actions that forget nothing forget nothing together. -/
theorem Keeps.trans (h : world.Keeps world') (h' : world'.Keeps world'') : world.Keeps world'' where
  rows t k row hrow := by
    obtain ⟨row', hrow', hle⟩ := h.rows t k row hrow
    obtain ⟨row'', hrow'', hle'⟩ := h'.rows t k row' hrow'
    exact ⟨row'', hrow'', hle.trans hle'⟩
  history t := List.Subset.trans (h.history t) (h'.history t)

omit [DecidableEq W] in
/-- What leaves Silver alone forgets nothing. -/
theorem Keeps.of_silver_eq (h : world'.lakehouse.silver = world.lakehouse.silver) :
    world.Keeps world' where
  rows t k row hrow := ⟨row, by rw [h]; exact hrow, le_rfl⟩
  history t := by rw [h]; exact List.Subset.refl _

/-! ### Commits and appends -/

/-- The rows of the tables after a commit. -/
theorem currentRows_of_tables {silver silver' : SilverLake} {c : SilverCommit (SilverColumns t)}
    (h : silver'.tables = Function.update silver.tables t (silver.tables t ++ [c])) :
    silver'.currentRows t = c.rows ∧
      ∀ t', t' ≠ t → silver'.currentRows t' = silver.currentRows t' := by
  refine ⟨?_, fun t' hne ↦ ?_⟩
  · rw [SilverLake.currentRows, h, Function.update_self, List.getLast?_concat]
    rfl
  · rw [SilverLake.currentRows, SilverLake.currentRows, h, Function.update_of_ne hne]

omit [DecidableEq W] in
/-- A commit forgets nothing if its rows do not, and if the change histories are kept. -/
theorem keeps_of_tables {c : SilverCommit (SilverColumns t)}
    (h : world'.lakehouse.silver.tables = Function.update world.lakehouse.silver.tables t
      (world.lakehouse.silver.tables t ++ [c]))
    (hrows : ∀ k row,
      MergeInto.lookup (fun row ↦ row.key) k (world.lakehouse.silver.currentRows t) = some row →
        ∃ row', MergeInto.lookup (fun row ↦ row.key) k c.rows = some row' ∧
          row.sequence ≤ row'.sequence)
    (hhistory : ∀ t', world.lakehouse.silver.history t' ⊆ world'.lakehouse.silver.history t') :
    world.Keeps world' := by
  obtain ⟨hself, hother⟩ := currentRows_of_tables h
  refine ⟨fun t' k row hrow ↦ ?_, hhistory⟩
  rcases eq_or_ne t' t with rfl | hne
  · rw [hself]
    exact hrows k row hrow
  · exact ⟨row, by rw [hother t' hne]; exact hrow, le_rfl⟩

omit [DecidableEq W] in
/-- A commit with distinct keys keeps the keys of all tables distinct. -/
theorem keysDistinct_of_tables (hkeys : world.KeysDistinct) {c : SilverCommit (SilverColumns t)}
    (h : world'.lakehouse.silver.tables = Function.update world.lakehouse.silver.tables t
      (world.lakehouse.silver.tables t ++ [c]))
    (hrows : (c.rows.map fun row ↦ row.key).Nodup) : world'.KeysDistinct := by
  obtain ⟨hself, hother⟩ := currentRows_of_tables h
  intro t'
  rcases eq_or_ne t' t with rfl | hne
  · rw [hself]
    exact hrows
  · rw [hother t' hne]
    exact hkeys t'

omit [DecidableEq W] in
/-- A history that is appended to keeps its rows, and those of the others. -/
theorem history_writeHistory_append (lakehouse : Lakehouse W) (t : SilverTable)
    (rows : List (HistoryRow ℤ (SilverColumns t))) (t' : SilverTable) :
    lakehouse.silver.history t' ⊆
      (lakehouse.writeHistory t (lakehouse.silver.histories t ++ [rows])).silver.history t' := by
  show (lakehouse.silver.histories t').flatten ⊆
    (Function.update lakehouse.silver.histories t
      (lakehouse.silver.histories t ++ [rows]) t').flatten
  rcases eq_or_ne t' t with rfl | hne
  · rw [Function.update_self, List.flatten_append]
    exact List.subset_append_left _ _
  · rw [Function.update_of_ne hne]
    exact List.Subset.refl _

/-- A merge leaves the change histories. -/
theorem histories_mergeTable {lakehouse lakehouse' : Lakehouse W}
    {c : SilverCommit (SilverColumns t)}
    (hstep : lakehouse.step fns hash (.mergeTable writer t c) = some lakehouse') :
    lakehouse'.silver.histories = lakehouse.silver.histories := by
  obtain ⟨-, heq⟩ := Option.ite_none_right_eq_some.1 hstep
  rw [← Option.some.inj heq]
  rfl

/-- A replacement leaves the new rows of the change history of its table. -/
theorem histories_replaceTable {lakehouse lakehouse' : Lakehouse W}
    {c : SilverCommit (SilverColumns t)} {rows : List (HistoryRow ℤ (SilverColumns t))}
    (hstep : lakehouse.step fns hash (.replaceTable writer t c rows) = some lakehouse') :
    lakehouse'.silver.history t = rows ∧
      ∀ t', t' ≠ t → lakehouse'.silver.history t' = lakehouse.silver.history t' := by
  obtain ⟨-, heq⟩ := Option.ite_none_right_eq_some.1 hstep
  rw [← Option.some.inj heq]
  refine ⟨?_, fun t' hne ↦ ?_⟩
  · show (Function.update lakehouse.silver.histories t _ t).flatten = rows
    rw [Function.update_self, List.flatten_append, List.flatten_singleton, List.map_const',
      List.flatten_replicate_nil, List.nil_append]
  · show (Function.update lakehouse.silver.histories t _ t').flatten = _
    rw [Function.update_of_ne hne]
    rfl

omit [DecidableEq W] in
variable (world fns clean) in
/-- Appending to a change history forgets nothing and leaves the tables. -/
theorem keeps_appendHistory (t : SilverTable) (current : ℕ)
    (events : List (BronzeEvent ℤ (SilverColumns t))) :
    world.Keeps (world.appendHistory fns clean t current events) ∧
      (world.appendHistory fns clean t current events).lakehouse.silver.tables =
        world.lakehouse.silver.tables := by
  rw [BatchLake.appendHistory]
  split
  · refine ⟨⟨fun _ _ row hrow ↦ ⟨row, hrow, le_rfl⟩, fun t' ↦ ?_⟩, rfl⟩
    exact history_writeHistory_append world.lakehouse t _ t'
  · exact ⟨Keeps.refl world, rfl⟩

/-! ### The Silver stage -/

/-- **A merge of a Batch run forgets nothing**, be it of the changes or of the snapshot. -/
theorem keeps_mergeRows (hkeys : world.KeysDistinct) {current start stop : ℕ} {killed : Bool}
    (hstep : world.mergeRows fns hash clean writer t current start stop killed = some world') :
    world'.KeysDistinct ∧ world.Keeps world' := by
  rw [BatchLake.mergeRows] at hstep
  dsimp only at hstep
  obtain ⟨hkeeps, htables⟩ :=
    keeps_appendHistory world fns clean t current (world.bronzeRows t start stop)
  set appended := world.appendHistory fns clean t current (world.bronzeRows t start stop)
  have hrows : ∀ t', appended.lakehouse.silver.currentRows t' =
      world.lakehouse.silver.currentRows t' := fun t' ↦ by
    rw [SilverLake.currentRows, htables]
    rfl
  have happended : appended.KeysDistinct := fun t' ↦ by
    rw [hrows]
    exact hkeys t'
  split at hstep
  · obtain rfl := Option.some.inj hstep
    exact ⟨happended, hkeeps⟩
  · obtain ⟨rows, hmerge, hcommit⟩ := Option.bind_eq_some_iff.1 hstep
    obtain ⟨lakehouse, hlakehouse, rfl⟩ := Option.map_eq_some_iff.1 hcommit
    obtain ⟨hnodup, hmono⟩ := mergePiece_mono (hkeys t) hmerge
    obtain ⟨htables', -⟩ := tables_of_isCommitOf (Or.inr (Or.inl rfl)) hlakehouse
    refine ⟨keysDistinct_of_tables happended htables' hnodup, hkeeps.trans ?_⟩
    refine keeps_of_tables htables' (fun k row hrow ↦ ?_) fun t' ↦ ?_
    · rw [hrows] at hrow
      exact hmono k row hrow
    · show _ ⊆ (lakehouse.silver.histories t').flatten
      rw [histories_mergeTable hlakehouse]
      exact List.Subset.refl _

omit [DecidableEq W] in
variable (fns clean) in
/-- The snapshot has a row at or above the one of each key exactly where Batch Bronze has an event
there. -/
theorem rowsInBronze_iff : world.RowsInBronze t ↔
    ∀ k row, MergeInto.lookup (fun row ↦ row.key) k (world.lakehouse.silver.currentRows t) =
      some row → ∃ row', MergeInto.lookup (fun row ↦ row.key) k
        (transformTable fns (clean t) (world.allBronzeRows t)) = some row' ∧
          row.sequence ≤ row'.sequence := by
  refine forall₂_congr fun k row ↦ imp_congr_right fun _ ↦ ?_
  rcases lookup_transformTable fns (clean t) (world.allBronzeRows t) k with
    ⟨hnone, hno⟩ | ⟨newest, hin, hk, hmax, hsome⟩
  · rw [hnone]
    refine iff_of_false (fun ⟨e, he, hek, _⟩ ↦ hno e he hek) ?_
    rintro ⟨row', hrow', -⟩
    cases hrow'
  · rw [hsome]
    refine ⟨fun ⟨e, he, hek, hle⟩ ↦ ⟨_, rfl, hle.trans (hmax e he hek)⟩, ?_⟩
    rintro ⟨row', hrow', hle⟩
    obtain rfl := Option.some.inj hrow'
    exact ⟨newest, hin, hk, hle⟩

/-- What a replacement leaves in the change histories: that of the table from Batch Bronze, unless
it has none or the run is killed before it is written, and the others as they were. -/
theorem history_replaceRows {current : ℕ} {killed : Bool}
    (hstep : world.replaceRows fns hash clean writer t current killed = some world') :
    (killed = false ∧ t.hasChangeHistory = true → world'.lakehouse.silver.history t =
        changeHistory fns t.name (clean t) (world.allBronzeRows t)) ∧
      ∀ t', t' ≠ t ∨ killed = true ∨ t.hasChangeHistory = false →
        world'.lakehouse.silver.history t' = world.lakehouse.silver.history t' := by
  obtain ⟨lakehouse, hlakehouse, rfl⟩ := Option.map_eq_some_iff.1 hstep
  rcases killed with - | -
  · rw [if_neg Bool.false_ne_true] at hlakehouse
    by_cases hhistory : t.hasChangeHistory = true
    · rw [if_pos hhistory] at hlakehouse
      obtain ⟨hself, hother⟩ := histories_replaceTable hlakehouse
      refine ⟨fun _ ↦ hself, fun t' hcases ↦ ?_⟩
      rcases hcases with hne | hkilled | hno
      · exact hother t' hne
      · cases hkilled
      · rw [hhistory] at hno
        cases hno
    · rw [if_neg hhistory] at hlakehouse
      refine ⟨fun h ↦ absurd h.2 hhistory, fun t' _ ↦ ?_⟩
      show (lakehouse.silver.histories t').flatten = _
      rw [histories_mergeTable hlakehouse]
      rfl
  · rw [if_pos rfl] at hlakehouse
    obtain rfl := Option.some.inj hlakehouse
    exact ⟨fun h ↦ (Bool.noConfusion h.1), fun _ _ ↦ rfl⟩

/-- **A replacement forgets nothing exactly if Batch Bronze has it all.** -/
theorem keeps_replaceRows_iff {current : ℕ} {killed : Bool} (hkeys : world.KeysDistinct)
    (hstep : world.replaceRows fns hash clean writer t current killed = some world') :
    world'.KeysDistinct ∧ (world.Keeps world' ↔ world.RowsInBronze t ∧
      (killed = false → t.hasChangeHistory = true → world.HistoryInBronze fns clean t)) := by
  obtain ⟨hreplaced, hkept⟩ := history_replaceRows hstep
  obtain ⟨lakehouse, hlakehouse, rfl⟩ := Option.map_eq_some_iff.1 hstep
  set c : SilverCommit (SilverColumns t) :=
    ⟨transformTable fns (clean t) (world.allBronzeRows t),
      overwriteFeed (world.lakehouse.silver.currentRows t)
        (transformTable fns (clean t) (world.allBronzeRows t)), some .bronzeToSilver⟩
  have htables : lakehouse.silver.tables = Function.update world.lakehouse.silver.tables t
      (world.lakehouse.silver.tables t ++ [c]) :=
    (tables_of_isCommitOf (isCommitOf_replacement writer t c _ killed) hlakehouse).1
  refine ⟨keysDistinct_of_tables hkeys htables (nodup_key_transformTable fns _ _), ?_⟩
  refine ⟨fun h ↦ ⟨?_, fun hended hhistory ↦ ?_⟩, fun ⟨hrows, hhistory⟩ ↦ ?_⟩
  · refine (rowsInBronze_iff fns clean).2 fun k row hrow ↦ ?_
    have hmono := h.rows t k row hrow
    rwa [(currentRows_of_tables htables).1] at hmono
  · have hsub := h.history t
    rwa [hreplaced ⟨hended, hhistory⟩] at hsub
  · refine keeps_of_tables htables ((rowsInBronze_iff fns clean).1 hrows) fun t' ↦ ?_
    by_cases hown : t' = t ∧ killed = false ∧ t.hasChangeHistory = true
    · obtain ⟨rfl, hended, hhas⟩ := hown
      rw [hreplaced ⟨hended, hhas⟩]
      exact hhistory hended hhas
    · rw [hkept t' (by grind)]
      exact List.Subset.refl _

omit [DecidableEq W] in
/-- Silver is replaced on a forced full rebuild, and where there is no table yet. -/
theorem tableRun_eq_replace {fullRebuild : Bool} {current : ℕ} {run : TableRun}
    (hrun : world.tableRun t fullRebuild current = some run) :
    run = .replace ↔ fullRebuild = true ∨ world.lakehouse.silver.tables t = [] := by
  rw [tableRun] at hrun
  dsimp only at hrun
  split at hrun
  · rename_i hreplace
    refine iff_of_true (Option.some.inj hrun).symm ?_
    rwa [Bool.or_eq_true, List.isEmpty_iff] at hreplace
  · rename_i hreplace
    refine iff_of_false ?_ (by rwa [Bool.or_eq_true, List.isEmpty_iff] at hreplace)
    split at hrun
    · obtain rfl := Option.some.inj hrun
      rintro ⟨⟩
    · split at hrun
      · cases hrun
      · split at hrun <;> obtain rfl := Option.some.inj hrun <;> rintro ⟨⟩

/-- **A Silver stage forgets nothing of a table exactly if it spares it.** -/
theorem keeps_runTable_iff (hkeys : world.KeysDistinct) {fullRebuild killed : Bool}
    (hstep : world.runTable fns hash clean writer t fullRebuild killed = some world') :
    world'.KeysDistinct ∧
      (world.Keeps world' ↔ world.Spares fns clean (.runTable writer t fullRebuild killed)) := by
  obtain ⟨current, -, hstep⟩ := Option.bind_eq_some_iff.1 hstep
  obtain ⟨run, hrun, hstep⟩ := Option.bind_eq_some_iff.1 hstep
  have hbranch := tableRun_eq_replace hrun
  have hspares : run ≠ .replace →
      world.Spares fns clean (.runTable writer t fullRebuild killed) :=
    fun hne hreplace ↦ absurd (hbranch.2 hreplace) hne
  cases run with
  | replace =>
    obtain ⟨hkeys', hiff⟩ := keeps_replaceRows_iff hkeys hstep
    refine ⟨hkeys', hiff.trans ?_⟩
    show _ ↔ (fullRebuild = true ∨ world.lakehouse.silver.tables t = [] → _)
    exact (imp_iff_right (hbranch.1 rfl)).symm
  | mergeSnapshot =>
    obtain ⟨hkeys', hkeeps⟩ := keeps_mergeRows hkeys hstep
    exact ⟨hkeys', iff_of_true hkeeps (hspares nofun)⟩
  | mergeChanges start =>
    obtain ⟨hkeys', hkeeps⟩ := keeps_mergeRows hkeys hstep
    exact ⟨hkeys', iff_of_true hkeeps (hspares nofun)⟩
  | keep =>
    rcases killed with - | -
    · obtain ⟨lakehouse, hlakehouse, rfl⟩ := exists_of_inLakehouse hstep
      obtain rfl := Option.some.inj hlakehouse
      exact ⟨hkeys, iff_of_true (Keeps.of_silver_eq rfl) (hspares nofun)⟩
    · obtain rfl := Option.some.inj hstep
      exact ⟨hkeys, iff_of_true (Keeps.refl world) (hspares nofun)⟩

/-! ### Runs -/

/-- A CDC merge or maintenance forgets nothing. -/
theorem keeps_otherCommit (hkeys : world.KeysDistinct) {c : SilverCommit (SilverColumns t)}
    (hcdc : world.FromCdc fns clean (.otherCommit t c)) {lakehouse : Lakehouse W}
    (hstep : world.lakehouse.step fns hash (.commit t c) = some lakehouse) :
    { world with lakehouse := lakehouse }.KeysDistinct ∧
      world.Keeps { world with lakehouse := lakehouse } := by
  obtain rfl := Option.some.inj hstep
  have hmono : (c.rows.map fun row ↦ row.key).Nodup ∧ ∀ k row,
      MergeInto.lookup (fun row ↦ row.key) k (world.lakehouse.silver.currentRows t) = some row →
        ∃ row', MergeInto.lookup (fun row ↦ row.key) k c.rows = some row' ∧
          row.sequence ≤ row'.sequence := by
    rcases hcdc with hsame | ⟨events, hmerge⟩
    · rw [hsame]
      exact ⟨hkeys t, fun _ row hrow ↦ ⟨row, hrow, le_rfl⟩⟩
    · exact mergePiece_mono (hkeys t) hmerge
  exact ⟨keysDistinct_of_tables hkeys rfl hmono.1,
    keeps_of_tables rfl hmono.2 fun _ ↦ List.Subset.refl _⟩

/-- The step: every action keeps the keys distinct, and forgets nothing if it spares what it
finds. -/
theorem keeps_step (hkeys : world.KeysDistinct) {action : BatchAction W}
    (hcdc : world.FromCdc fns clean action)
    (hstep : world.step fns hash clean action = some world') :
    world'.KeysDistinct ∧ (world.Spares fns clean action → world.Keeps world') := by
  cases action with
  | extract writer found =>
    obtain ⟨-, heq⟩ := Option.ite_none_right_eq_some.1 hstep
    obtain rfl := Option.some.inj heq
    exact ⟨hkeys, fun _ ↦ Keeps.of_silver_eq rfl⟩
  | extractKilled found done =>
    obtain rfl := Option.some.inj hstep
    exact ⟨hkeys, fun _ ↦ Keeps.of_silver_eq rfl⟩
  | optimizeBronze t =>
    obtain ⟨-, heq⟩ := Option.ite_none_left_eq_some.1 hstep
    obtain rfl := Option.some.inj heq
    exact ⟨hkeys, fun _ ↦ Keeps.of_silver_eq rfl⟩
  | runTable writer t fullRebuild killed =>
    obtain ⟨hkeys', hiff⟩ := keeps_runTable_iff hkeys hstep
    exact ⟨hkeys', hiff.2⟩
  | otherCommit t c =>
    obtain ⟨-, hstep⟩ := Option.ite_none_left_eq_some.1 hstep
    obtain ⟨lakehouse, hlakehouse, rfl⟩ := exists_of_inLakehouse hstep
    obtain ⟨hkeys', hkeeps⟩ := keeps_otherCommit hkeys hcdc hlakehouse
    exact ⟨hkeys', fun _ ↦ hkeeps⟩
  | otherHistory t rows =>
    obtain ⟨lakehouse, hlakehouse, rfl⟩ := exists_of_inLakehouse hstep
    obtain rfl := Option.some.inj hlakehouse
    refine ⟨hkeys, fun _ ↦ ⟨fun _ _ row hrow ↦ ⟨row, hrow, le_rfl⟩, fun t' ↦ ?_⟩⟩
    exact history_writeHistory_append world.lakehouse t rows t'
  | skip writer =>
    obtain ⟨-, heq⟩ := Option.ite_none_right_eq_some.1 hstep
    obtain rfl := Option.some.inj heq
    exact ⟨hkeys, fun _ ↦ Keeps.refl world⟩
  | goldStage stage =>
    obtain ⟨lakehouse, hlakehouse, rfl⟩ := exists_of_inLakehouse hstep
    obtain ⟨run, -, rfl⟩ := Option.map_eq_some_iff.1 hlakehouse
    exact ⟨hkeys, fun _ ↦ Keeps.of_silver_eq rfl⟩

omit [DecidableEq W] in
/-- There are no keys in an empty Silver. -/
theorem keysDistinct_empty : (empty : BatchLake W).KeysDistinct :=
  fun _ ↦ List.nodup_nil

/-- **When Silver forgets.** In every state that any interleaving of batch runs, killed or not, CDC
writers and maintenance leads to, a Batch operation on a Silver table forgets nothing exactly if it
spares the table; and no run of actions that spare what they find forgets anything. -/
theorem keeps_iff_of_run {actions : List (BatchAction W)}
    (hrun : Runs.run (fun w a ↦ BatchLake.step w fns hash clean a) empty actions = some world)
    (hcdc : Runs.Along (fun w a ↦ BatchLake.step w fns hash clean a)
      (fun w a ↦ BatchLake.FromCdc w fns clean a) empty actions) :
    (∀ writer t fullRebuild killed world',
      world.step fns hash clean (.runTable writer t fullRebuild killed) = some world' →
        (world.Keeps world' ↔ world.Spares fns clean (.runTable writer t fullRebuild killed))) ∧
      ∀ more world', Runs.run (fun w a ↦ BatchLake.step w fns hash clean a) world more =
          some world' →
        Runs.Along (fun w a ↦ BatchLake.step w fns hash clean a)
          (fun w a ↦ BatchLake.FromCdc w fns clean a ∧ BatchLake.Spares w fns clean a) world more →
        world.Keeps world' := by
  have hkeys : world.KeysDistinct := Runs.run_invariant KeysDistinct
    (fun _ _ _ hw hok hstep ↦ (keeps_step hw hok hstep).1) keysDistinct_empty hcdc hrun
  refine ⟨fun writer t fullRebuild killed world' hstep ↦ (keeps_runTable_iff hkeys hstep).2,
    fun more world' hmore halong ↦ ?_⟩
  refine (Runs.run_invariant (fun w ↦ w.KeysDistinct ∧ world.Keeps w) ?_ ⟨hkeys, Keeps.refl world⟩
    halong hmore).2
  rintro w action w' ⟨hw, hkeeps⟩ ⟨hcdc, hspares⟩ hstep
  obtain ⟨hw', hstep⟩ := keeps_step hw hcdc hstep
  exact ⟨hw', hkeeps.trans (hstep hspares)⟩

/-! ### A shop that only CDC has brought -/

/-- The insert of shop 8, from the WAL. -/
def cdcShop : BronzeEvent ℤ ShopColumns :=
  { insertedShop 2 8 'b' with
    eventId := .text ['x']
    isStreamingCdc := true
    sourceLsn := some 5
    kafkaPartition := some 0
    kafkaOffset := some 3 }

/-- A batch run brings shop 7, and CDC shop 8. -/
def cdcActions : List (BatchAction ℕ) :=
  [.extract 0 (foundShops [insertedShop 1 7 'a']), .runTable 0 .shops false false,
    .otherHistory .shops (changeHistory .plain SilverTable.shops.name id [cdcShop]),
    .otherCommit .shops
      { rows := (mergePiece .plain id [mergedRow .plain id (insertedShop 1 7 'a')]
          (.cdc [cdcShop])).getD []
        feed := []
        pipeline := some .cdcToSilver }]

/-- The CDC commits merge `cdcShop`. -/
def MergesCdcShop (world : BatchLake ℕ) : BatchAction ℕ → Prop
  | .otherCommit t c => mergePiece .plain id (world.lakehouse.silver.currentRows t)
    (.cdc (foundShops [cdcShop] t)) = some c.rows
  | _ => True

instance (world : BatchLake ℕ) : (action : BatchAction ℕ) → Decidable (world.MergesCdcShop action)
  | .otherCommit _ c => inferInstanceAs (Decidable (mergePiece _ _ _ _ = some c.rows))
  | .extract .. | .extractKilled .. | .optimizeBronze .. | .runTable .. | .otherHistory ..
  | .skip .. | .goldStage .. => inferInstanceAs (Decidable True)

/-- The one commit of the run that is not of a batch run merges the event of shop 8. -/
theorem along_cdcActions : Runs.Along (fun w a ↦ BatchLake.step w .plain smallHash (fun _ ↦ id) a)
    (fun w a ↦ BatchLake.FromCdc w .plain (fun _ ↦ id) a) empty cdcActions := by
  have hmerges : Runs.Along (fun w a ↦ BatchLake.step w .plain smallHash (fun _ ↦ id) a)
      MergesCdcShop empty cdcActions := by
    decide +kernel
  refine hmerges.mono fun w a h ↦ ?_
  cases a with
  | otherCommit t c => exact Or.inr ⟨_, h⟩
  | extract | extractKilled | optimizeBronze | runTable | otherHistory | skip | goldStage =>
    trivial

/-- **A forced full rebuild forgets shop 8.** -/
theorem not_keeps_fullRebuild : ∃ world world' : BatchLake ℕ, smallBatches cdcActions = some world ∧
    Runs.Along (fun w a ↦ BatchLake.step w .plain smallHash (fun _ ↦ id) a)
      (fun w a ↦ BatchLake.FromCdc w .plain (fun _ ↦ id) a) empty cdcActions ∧
    world.step .plain smallHash (fun _ ↦ id) (.runTable 1 .shops true false) = some world' ∧
    ¬world.Keeps world' := by
  have hrun : ((smallBatches cdcActions).any fun world ↦
    (world.step .plain smallHash (fun _ ↦ id) (.runTable 1 .shops true false)).any fun world' ↦
      (MergeInto.lookup (fun row ↦ row.key) 8 (world.lakehouse.silver.currentRows .shops)).isSome &&
        (MergeInto.lookup (fun row ↦ row.key) 8
          (world'.lakehouse.silver.currentRows .shops)).isNone) = true := by
    decide +kernel
  obtain ⟨world, hworld, hrun⟩ := (Option.any_eq_true _ _).1 hrun
  obtain ⟨world', hstep, hrun⟩ := (Option.any_eq_true _ _).1 hrun
  obtain ⟨hbefore, hafter⟩ := Bool.and_eq_true_iff.1 hrun
  obtain ⟨row, hrow⟩ := Option.isSome_iff_exists.1 hbefore
  refine ⟨world, world', hworld, along_cdcActions, hstep, fun hkeeps ↦ ?_⟩
  obtain ⟨row', hrow', -⟩ := hkeeps.rows .shops 8 row hrow
  rw [Option.isNone_iff_eq_none.1 hafter] at hrow'
  cases hrow'

/-- What the theorem says after the CDC merge of shop 8. -/
theorem keeps_iff_of_run_cdcShop : ∃ world : BatchLake ℕ, smallBatches cdcActions = some world ∧
    ∀ writer t fullRebuild killed world', world.step .plain smallHash (fun _ ↦ id)
        (.runTable writer t fullRebuild killed) = some world' →
      (world.Keeps world' ↔
        world.Spares .plain (fun _ ↦ id) (.runTable writer t fullRebuild killed)) := by
  have hrun : (smallBatches cdcActions).isSome = true := by decide +kernel
  obtain ⟨world, hworld⟩ := Option.isSome_iff_exists.1 hrun
  exact ⟨world, hworld, (keeps_iff_of_run hworld along_cdcActions).1⟩

end BatchLake

end LakehousePipeline
