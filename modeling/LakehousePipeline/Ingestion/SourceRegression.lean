import LakehousePipeline.Ingestion.BronzeStage

/-!
# The guard against a reset source

`read_batch_upper_bounds` raises when the change-event log has no event as new as the cursor of a
table that exists. That is what a reset looks like; but it is also what a log looks like whose
consumed events have been purged, or one that has never had an event of the table, as a table is
created with cursor 0 in its first extraction, whether there are events or not.

Here change events may be purged once the cursor has passed them, and the whole log may be replaced.
Without a replacement the guard raises exactly when the newest event of a table is not in the log
(`regressed_iff_of_run`); and whenever the log is behind a cursor it raises, and has written
nothing.

## The system

`SourceHistory` adds to the log and the Bronze tables what was ever written to the log, which no
query can see: the statement compares the guard's answer with it. A step is an action of the
extraction, a purge of what the cursor has passed, or a replacement of the log. The tables share the
one sequence of event ids, but are otherwise independent, so invariants are stated for one table;
`TableMoves` is what any action, of the system or of another table, can do to it.

## Two invariants

* `StageFresh` holds in every run, replacements included: a stage that has not been done with a
  table has found it as it still is, and reads and writes nothing before its control query. This is
  why a guard that raises has written nothing.
* `Consumed` holds as long as the log goes on: it has every event the cursor has not passed, and the
  cursor is the id of an event that was written, or 0. So a log without an event as new as the
  cursor has none newer either, and the newest event ever written, if there is one, was at the
  cursor and has been purged (`Consumed.regressed_iff`).

A replacement breaks the second invariant, and there is then nothing to compare the log with. What
remains is the one direction that matters: where the log is behind a cursor, the guard raises.
-/

namespace LakehousePipeline

variable {K P : Type}

/-! ### One table -/

namespace ExtractedTable

/-- What a stage under way knows of a table, whatever happens to the log. -/
structure StageFresh (table : ExtractedTable K P) : Prop where
  /-- Until the table is done it is as it was at the beginning. -/
  state : ∀ run, table.run = some run → run.result = none → tableState table.log = some run.state
  /-- Nothing is read or written before the control query. -/
  waits : ∀ run, table.run = some run → run.bound = none → run.rows = none ∧ run.result = none

/-- **The log has what the cursor has not passed**, and the cursor has not passed what was never
written. -/
structure Consumed (table : ExtractedTable K P) (written : List (ChangeEvent K P)) : Prop where
  /-- Ids are given in increasing order. -/
  increasing : PolledLog.Increasing (fun e ↦ e.eventId) written
  /-- Ids start at 1. -/
  positive : ∀ e ∈ written, 0 < e.eventId
  /-- The log has nothing else. -/
  subset : table.events ⊆ written
  /-- Only events up to the cursor have been purged. -/
  unread : ∀ e ∈ written, (bronzeCursor table.log).getD 0 < e.eventId → e ∈ table.events
  /-- The cursor is that of an event, or 0. -/
  cursor : (bronzeCursor table.log).getD 0 = 0 ∨
    ∃ e ∈ written, e.eventId = (bronzeCursor table.log).getD 0
  /-- What the stage under way has read are events after its cursor. -/
  rows : ∀ run rows, table.run = some run → run.rows = some rows → ∀ row ∈ rows,
    ∃ e ∈ written, row.eventId.asLong = some e.eventId ∧ run.cursor < e.eventId

variable {config : PostgresConfig} {jdbc : PartitionedRead K P} {table table' : ExtractedTable K P}
  {action : TableAction K P} {written : List (ChangeEvent K P)}

/-- Without a stage there is nothing to ask. -/
theorem stageFresh_empty : (empty : ExtractedTable K P).StageFresh where
  state _ h := by cases h
  waits _ h := by cases h

/-- Nothing is written and the cursor is at 0. -/
theorem consumed_empty : (empty : ExtractedTable K P).Consumed [] where
  increasing := List.Pairwise.nil
  positive _ h := by cases h
  subset := List.Subset.refl _
  unread _ h := by cases h
  cursor := Or.inl rfl
  rows _ _ h := by cases h

/-- The step: a stage that has not been done with a table has not changed it. -/
theorem StageFresh.step (h : table.StageFresh) (hstep : Steps config jdbc table action table') :
    table'.StageFresh := by
  cases hstep with
  | write _ _ => exact ⟨h.state, h.waits⟩
  | optimize hidle _ =>
    refine ⟨fun run hrun ↦ ?_, fun run hrun ↦ ?_⟩ <;>
    · have hrun : table.run = some run := hrun
      rw [hidle] at hrun
      cases hrun
  | begin _ hstate =>
    refine ⟨fun run hrun _ ↦ ?_, fun run hrun _ ↦ ?_⟩
    · obtain rfl := Option.some.inj hrun
      exact hstate
    · obtain rfl := Option.some.inj hrun
      exact ⟨rfl, rfl⟩
  | @readBounds run hrun _ _ =>
    refine ⟨fun run' hrun' ↦ ?_, fun run' hrun' hbound ↦ ?_⟩
    · obtain rfl := Option.some.inj hrun'
      exact h.state run hrun
    · obtain rfl := Option.some.inj hrun'
      cases hbound
  | @materialize run _ _ _ hrun hbounded _ _ _ =>
    refine ⟨fun run' hrun' ↦ ?_, fun run' hrun' hbound ↦ ?_⟩
    · obtain rfl := Option.some.inj hrun'
      exact h.state run hrun
    · obtain rfl := Option.some.inj hrun'
      exact absurd (hbounded.symm.trans hbound) (Option.some_ne_none _)
  | @finishIdle run _ hidle _ =>
    refine ⟨fun run' hrun' hresult ↦ ?_, fun run' hrun' hbound ↦ ?_⟩
    · obtain rfl := Option.some.inj hrun'
      cases hresult
    · obtain rfl := Option.some.inj hrun'
      have hbound : run.bound = none := hbound
      rw [TableExtraction.isIdle, hbound] at hidle
      simp at hidle
  | @finish run rows hrun _ _ hread =>
    refine ⟨fun run' hrun' hresult ↦ ?_, fun run' hrun' hbound ↦ ?_⟩
    · obtain rfl := Option.some.inj hrun'
      cases hresult
    · obtain rfl := Option.some.inj hrun'
      exact absurd (hread.symm.trans (h.waits run hrun hbound).1) (Option.some_ne_none _)
  | killed _ => refine ⟨fun run hrun ↦ ?_, fun run hrun ↦ ?_⟩ <;> cases hrun
  | complete _ _ => refine ⟨fun run hrun ↦ ?_, fun run hrun ↦ ?_⟩ <;> cases hrun

/-- The next cursor is the previous one or the id of a row. -/
theorem nextCursor_spec (previous : ℤ) (rows : List (BronzeEvent K P)) :
    nextCursor previous rows = previous ∨
      ∃ row ∈ rows, row.eventId.asLong = some (nextCursor previous rows) := by
  rcases hmax : (rows.filterMap fun e ↦ e.eventId.asLong).max? with - | id
  · exact Or.inl (by rw [nextCursor, hmax, Option.getD_none])
  · obtain ⟨row, hrow, hid⟩ := List.mem_filterMap.1 (List.max?_mem hmax)
    exact Or.inr ⟨row, hrow, by rw [nextCursor, hmax, Option.getD_some, hid]⟩

/-- An append leaves the cursor, or takes it to an event it has read. -/
theorem cursor_appendEvents {log : List (BronzeCommit K P)} {state : Option BronzeTableState}
    (h : tableState log = some state) (rows : List (BronzeEvent K P)) :
    (bronzeCursor (appendEvents state rows log).1).getD 0 = (bronzeCursor log).getD 0 ∨
      ∃ row ∈ rows, row.eventId.asLong =
        some ((bronzeCursor (appendEvents state rows log).1).getD 0) := by
  rcases Classical.em (state = none ∨ rows ≠ []) with hwrites | hno
  · rw [(appendEvents_spec h hwrites).1, bronzeCursor_concat, Option.getD_some,
      ← lastEventId_of_tableState h]
    exact nextCursor_spec _ _
  · obtain ⟨hstate, hrows⟩ := not_or.1 hno
    obtain rfl := not_not.1 hrows
    obtain ⟨s, rfl⟩ := Option.ne_none_iff_exists'.1 hstate
    exact Or.inl rfl

/-- A change event that is written is new. -/
theorem Consumed.write (h : table.Consumed written) {e : ChangeEvent K P} (hpos : 0 < e.eventId)
    (hnew : ∀ x ∈ written, x.eventId < e.eventId) :
    ({ table with events := table.events ++ [e] } : ExtractedTable K P).Consumed
      (written ++ [e]) where
  increasing :=
    List.pairwise_append.2 ⟨h.increasing, List.pairwise_singleton _ _, fun x hx y hy ↦ by
    rw [List.mem_singleton.1 hy]
    exact hnew x hx⟩
  positive x hx := by
    rcases List.mem_append.1 hx with hx | hx
    · exact h.positive x hx
    · rw [List.mem_singleton.1 hx]
      exact hpos
  subset x hx := by
    rcases List.mem_append.1 hx with hx | hx
    · exact List.mem_append_left _ (h.subset hx)
    · exact List.mem_append_right _ hx
  unread x hx hlt := by
    rcases List.mem_append.1 hx with hx | hx
    · exact List.mem_append_left _ (h.unread x hx hlt)
    · exact List.mem_append_right _ hx
  cursor := h.cursor.imp_right fun ⟨x, hx, heq⟩ ↦ ⟨x, List.mem_append_left _ hx, heq⟩
  rows run rows hrun hrows row hrow := by
    obtain ⟨x, hx, hid⟩ := h.rows run rows hrun hrows row hrow
    exact ⟨x, List.mem_append_left _ hx, hid⟩

/-- Change events are deleted from the log. -/
def purge (gone : ChangeEvent K P → Bool) (table : ExtractedTable K P) : ExtractedTable K P :=
  { table with events := table.events.filter fun e ↦ !gone e }

/-- Events up to the cursor are purged. -/
theorem Consumed.purge (h : table.Consumed written) {gone : ChangeEvent K P → Bool}
    (hgone : ∀ e ∈ table.events, gone e = true → e.eventId ≤ (bronzeCursor table.log).getD 0) :
    (table.purge gone).Consumed written where
  increasing := h.increasing
  positive := h.positive
  subset _ he := h.subset (List.mem_of_mem_filter he)
  unread e he hlt := by
    have hmem := h.unread e he hlt
    refine List.mem_filter.2 ⟨hmem, ?_⟩
    rw [Bool.not_eq_true']
    exact Bool.eq_false_of_not_eq_true fun hg ↦ absurd (hgone e hmem hg) (not_le_of_gt hlt)
  cursor := h.cursor
  rows := h.rows

/-- The rows a stage materializes are those of events after its cursor. -/
theorem exists_event_of_materialized (hjdbc : ReadsAllRows jdbc) {batchId : Text} {cursor : ℤ}
    {bound : Option ℤ} {found events : List (ChangeEvent K P)} {rows : List (BronzeEvent K P)}
    (hread : readEvents config jdbc events cursor bound = some found)
    (hvalid : collectEvents batchId found = some rows) {row : BronzeEvent K P} (hrow : row ∈ rows) :
    ∃ e ∈ events, row.eventId.asLong = some e.eventId ∧ cursor < e.eventId := by
  obtain ⟨-, rfl⟩ : _ ∧ found.filterMap (fun e ↦ e.bronzeEvent? batchId) = rows := by
    obtain ⟨hall, heq⟩ := Option.ite_none_right_eq_some.1 hvalid
    exact ⟨hall, Option.some.inj heq⟩
  obtain ⟨e, he, hmade⟩ := List.mem_filterMap.1 hrow
  have hmem := (perm_of_readEvents hjdbc hread).mem_iff.1 he
  rcases bound with - | b
  · cases hmem
  · obtain ⟨hin, hbetween⟩ := List.mem_filter.1 hmem
    refine ⟨e, hin, ?_, (of_decide_eq_true hbetween).1⟩
    rw [ChangeEvent.eventId_of_bronzeEvent? hmade]
    rfl

/-- The stage moves on without a commit. -/
theorem Consumed.withRun (h : table.Consumed written) {run? : Option (TableExtraction K P)}
    (hrows : ∀ run rows, run? = some run → run.rows = some rows → ∀ row ∈ rows,
      ∃ e ∈ written, row.eventId.asLong = some e.eventId ∧ run.cursor < e.eventId) :
    ({ table with run := run? } : ExtractedTable K P).Consumed written :=
  ⟨h.increasing, h.positive, h.subset, h.unread, h.cursor, hrows⟩

/-- The step: no other action leaves an event behind. -/
theorem Consumed.step (hjdbc : ReadsAllRows jdbc) (h : table.Consumed written)
    (hfresh : table.StageFresh) (hno : ∀ e, action ≠ .write e)
    (hstep : Steps config jdbc table action table') : table'.Consumed written := by
  cases hstep with
  | write _ _ => exact absurd rfl (hno _)
  | optimize hidle hcreated =>
    have hcursor := bronzeCursor_optimize hcreated
    refine ⟨h.increasing, h.positive, h.subset, ?_, ?_, h.rows⟩
    · rw [hcursor]
      exact h.unread
    · rw [hcursor]
      exact h.cursor
  | begin _ hstate =>
    refine h.withRun fun run rows hrun hrows ↦ ?_
    obtain rfl := Option.some.inj hrun
    cases hrows
  | @readBounds run hrun _ _ =>
    refine h.withRun fun run' rows hrun' hrows ↦ ?_
    obtain rfl := Option.some.inj hrun'
    exact h.rows run rows hrun hrows
  | @materialize run bound found rows hrun _ _ hread hvalid =>
    refine h.withRun fun run' rows' hrun' hrows row hrow ↦ ?_
    obtain rfl := Option.some.inj hrun'
    obtain rfl := Option.some.inj hrows
    -- a row of the extraction is an event above the cursor
    obtain ⟨e, he, hid, hlt⟩ := exists_event_of_materialized hjdbc hread hvalid hrow
    exact ⟨e, h.subset he, hid, hlt⟩
  | @finishIdle run hrun _ _ =>
    refine h.withRun fun run' rows hrun' hrows ↦ ?_
    obtain rfl := Option.some.inj hrun'
    exact h.rows run rows hrun hrows
  | @finish run rows hrun _ hresult hread =>
    have hstate := hfresh.state run hrun hresult
    have hcursor : run.cursor = (bronzeCursor table.log).getD 0 := lastEventId_of_tableState hstate
    have hrows := h.rows run rows hrun hread
    obtain ⟨new, hnew⟩ : ∃ new,
        (bronzeCursor (appendEvents run.state rows table.log).1).getD 0 = new := ⟨_, rfl⟩
    -- the cursor stays, or moves to an event that was read
    have hmoves : new = run.cursor ∨ ∃ e ∈ written, new = e.eventId ∧ run.cursor < e.eventId := by
      rcases cursor_appendEvents hstate rows with hsame | ⟨row, hrow, hid⟩
      · exact Or.inl (by rw [← hnew, hsame, hcursor])
      · obtain ⟨e, he, hid', hlt⟩ := hrows row hrow
        rw [hnew, hid'] at hid
        exact Or.inr ⟨e, he, (Option.some.inj hid).symm, hlt⟩
    have hle : run.cursor ≤ new := by
      rcases hmoves with hsame | ⟨e, -, heq, hlt⟩
      · exact hsame.ge
      · exact heq ▸ hlt.le
    refine ⟨h.increasing, h.positive, h.subset, fun e he hlt ↦ ?_, ?_,
      fun run' rows' hrun' hrows' ↦ ?_⟩
    · have hlt : (bronzeCursor (appendEvents run.state rows table.log).1).getD 0 < e.eventId := hlt
      rw [hnew] at hlt
      exact h.unread e he (hcursor ▸ hle.trans_lt hlt)
    · show (bronzeCursor (appendEvents run.state rows table.log).1).getD 0 = 0 ∨
        ∃ e ∈ written, e.eventId = (bronzeCursor (appendEvents run.state rows table.log).1).getD 0
      rw [hnew]
      rcases hmoves with hsame | ⟨e, he, heq, -⟩
      · rw [hsame, hcursor]
        exact h.cursor
      · exact Or.inr ⟨e, he, heq.symm⟩
    · obtain rfl := Option.some.inj hrun'
      exact h.rows run rows' hrun hrows'
  | killed _ => exact h.withRun nofun
  | complete _ _ => exact h.withRun nofun

/-- The newest event that was ever written is still in the log. -/
def NewestKept (table : ExtractedTable K P) (written : List (ChangeEvent K P)) : Prop :=
  ∃ e ∈ written.getLast?, e ∈ table.events

/-- The guard finds an event as new as the cursor, or raises. -/
theorem sequenceRegressed_some_iff {s : BronzeTableState} {events : List (ChangeEvent K P)} :
    sequenceRegressed (some s) events = true ↔ ∀ e ∈ events, e.eventId < s.cursor.lastEventId := by
  rcases hmax : (events.map fun e ↦ e.eventId).max? with - | sourceMax
  · obtain rfl := List.map_eq_nil_iff.1 (List.max?_eq_none_iff.1 hmax)
    exact iff_of_true rfl fun _ he ↦ absurd he List.not_mem_nil
  · obtain ⟨hmem, hle⟩ := List.max?_eq_some_iff.1 hmax
    simp only [sequenceRegressed, hmax, decide_eq_true_iff]
    constructor
    · intro hlt e he
      exact (hle _ (List.mem_map_of_mem he)).trans_lt hlt
    · intro h
      obtain ⟨e, he, rfl⟩ := List.mem_map.1 hmem
      exact h e he

/-- **What the guard finds**: without a replacement of the log it raises exactly when the newest
event of a table that exists has been purged, or there has never been one. -/
theorem Consumed.regressed_iff (h : table.Consumed written) {s : BronzeTableState}
    (hstate : tableState table.log = some (some s)) :
    sequenceRegressed (some s) table.events = true ↔ ¬table.NewestKept written := by
  have hcursor : s.cursor.lastEventId = (bronzeCursor table.log).getD 0 :=
    lastEventId_of_tableState hstate
  rw [sequenceRegressed_some_iff, hcursor]
  constructor
  · rintro hbehind ⟨e, hlast, he⟩
    have hlt := hbehind e he
    have hpos := h.positive e (h.subset he)
    rcases h.cursor with hzero | ⟨x, hx, heq⟩
    · omega
    · have hle := h.increasing.le_getLast? hx hlast
      omega
  · intro hgone e he
    by_contra hge
    have hmem := h.subset he
    obtain ⟨last, hlast⟩ := Option.isSome_iff_exists.1
      (List.getLast?_isSome.2 (List.ne_nil_of_mem hmem))
    have hle := h.increasing.le_getLast? hmem hlast
    rcases hle.lt_or_eq with hlt | heq
    · exact hgone ⟨last, hlast, h.unread last (List.mem_of_getLast? hlast) (by omega)⟩
    · have hsame : e = last := h.increasing.eq_of_stamp_eq hmem (List.mem_of_getLast? hlast) heq
      exact hgone ⟨last, hlast, hsame ▸ he⟩

end ExtractedTable

/-! ### All tables -/

/-- The change-event log and the Bronze tables, with all that was written to the log since it was
last replaced, which no query reads. -/
structure SourceHistory where
  /-- The log as it is, the Bronze tables and the stage under way. -/
  world : ExtractionWorld
  /-- The change events ever written. -/
  written : (t : SilverTable) → List (ChangeEvent ℤ (SilverColumns t))

/-- What happens to them. -/
inductive SourceAction
  /-- A change event is written, or something happens to the Bronze tables. -/
  | extraction (action : ExtractionAction)
  /-- Change events of a table are purged. -/
  | purge (t : SilverTable) (gone : ChangeEvent ℤ (SilverColumns t) → Bool)
  /-- The source is reset or replaced. -/
  | replace (events : (t : SilverTable) → List (ChangeEvent ℤ (SilverColumns t)))

/-- The log goes on after the action. -/
def SourceAction.keepsLog : SourceAction → Bool
  | .replace _ => false
  | _ => true

namespace SourceHistory

variable (config : PostgresConfig)
  (jdbc : (t : SilverTable) → PartitionedRead ℤ (SilverColumns t)) (history : SourceHistory)

/-- Nothing written and nothing extracted. -/
def empty : SourceHistory where
  world := .empty
  written _ := []

/-- One action. `event_id` never goes back, and only what the cursor of the table has passed is
purged. -/
def step : SourceAction → Option SourceHistory
  | .extraction (.write t e) =>
    if silverTables.all fun u ↦ (history.written u).all fun x ↦ x.eventId < e.eventId then
      (history.world.step config jdbc (.write t e)).map fun world ↦
        { world := world
          written := Function.update history.written t (history.written t ++ [e]) }
    else none
  | .extraction action =>
    (history.world.step config jdbc action).map fun world ↦ { history with world := world }
  | .purge t gone =>
    if (history.world t).events.all fun e ↦
        !gone e || (bronzeCursor (history.world t).log).any (e.eventId ≤ ·) then
      some { history with
        world := Function.update history.world t ((history.world t).purge gone) }
    else none
  | .replace events => some
    { world := fun t ↦ { history.world t with events := events t }
      written := events }

/-- A stage is under way and waits for its control query. -/
def awaitsBounds : Bool :=
  (silverTables.any fun t ↦ (history.world t).run.isSome) &&
    silverTables.all fun t ↦ (history.world t).run.all fun run ↦ run.bound.isNone

/-- `read_batch_upper_bounds` raises: one table of the stage has no event as new as its cursor. -/
def regressed : Bool :=
  silverTables.any fun t ↦ (history.world t).run.any fun run ↦
    sequenceRegressed run.state (history.world t).events

/-- What becomes of a table and of what was written for it. -/
inductive TableMoves {t : SilverTable} (table : ExtractedTable ℤ (SilverColumns t))
    (written : List (ChangeEvent ℤ (SilverColumns t))) :
    ExtractedTable ℤ (SilverColumns t) → List (ChangeEvent ℤ (SilverColumns t)) → Bool → Prop
  | same : TableMoves table written table written true
  | steps {own : TableAction ℤ (SilverColumns t)} {table' : ExtractedTable ℤ (SilverColumns t)}
    (reads : ∀ e, own ≠ .write e) (step : ExtractedTable.Steps config (jdbc t) table own table') :
    TableMoves table written table' written true
  | write {e : ChangeEvent ℤ (SilverColumns t)} (pos : 0 < e.eventId)
    (new : ∀ x ∈ written, x.eventId < e.eventId) :
    TableMoves table written { table with events := table.events ++ [e] } (written ++ [e]) true
  | purge {gone : ChangeEvent ℤ (SilverColumns t) → Bool}
    (passed : ∀ e ∈ table.events, gone e = true → e.eventId ≤ (bronzeCursor table.log).getD 0) :
    TableMoves table written (table.purge gone) written true
  | replace (events : List (ChangeEvent ℤ (SilverColumns t))) :
    TableMoves table written { table with events := events } events false

variable {config jdbc history} {history' : SourceHistory} {action : SourceAction}

/-- What an action of the stage is for a table, if it is not the table's own write. -/
theorem tableMoves_of_world_step {world world' : ExtractionWorld} {action : ExtractionAction}
    (hstep : world.step config jdbc action = some world') (t : SilverTable)
    (hno : ∀ e, world.tableAction action t ≠ some (.write e))
    (written : List (ChangeEvent ℤ (SilverColumns t))) :
    TableMoves config jdbc (world t) written (world' t) written true := by
  have hnext := ExtractionWorld.step_spec hstep t
  rw [ExtractionWorld.next] at hnext
  rcases hown : world.tableAction action t with - | own
  · rw [hown] at hnext
    rw [← Option.some.inj hnext]
    exact .same
  · rw [hown] at hnext
    exact .steps (fun e he ↦ hno e (he ▸ hown)) (ExtractedTable.steps_of_step hnext)

/-- Only a write of a table writes to it. -/
theorem tableAction_ne_write {world : ExtractionWorld} {action : ExtractionAction}
    (hno : ∀ t e, action ≠ .write t e) (t : SilverTable) (e : ChangeEvent ℤ (SilverColumns t)) :
    world.tableAction action t ≠ some (.write e) := by
  intro hown
  cases action with
  | write u e' => exact hno u e' rfl
  | optimize u | materialize u | finish u =>
    rw [ExtractionWorld.tableAction] at hown
    rcases eq_or_ne t u with rfl | hne
    · rw [Function.update_self] at hown
      cases hown
    · rw [Function.update_of_ne hne] at hown
      cases hown
  | begin _ tables =>
    obtain ⟨-, heq⟩ := Option.ite_none_right_eq_some.1 hown
    cases heq
  | readBounds | killed | complete =>
    obtain ⟨-, heq⟩ := Option.ite_none_right_eq_some.1 hown
    cases heq

/-- **What an action does to each table.** -/
theorem tableMoves_of_step (hstep : history.step config jdbc action = some history')
    (t : SilverTable) : TableMoves config jdbc (history.world t) (history.written t)
      (history'.world t) (history'.written t) action.keepsLog := by
  cases action with
  | extraction action =>
    cases action with
    | write u e =>
      obtain ⟨hnew, hstep⟩ := Option.ite_none_right_eq_some.1 hstep
      obtain ⟨world, hworld, rfl⟩ := Option.map_eq_some_iff.1 hstep
      rcases eq_or_ne t u with rfl | hne
      · have hnext := ExtractionWorld.step_spec hworld t
        have hown : history.world.tableAction (.write t e) t = some (.write e) := by
          rw [ExtractionWorld.tableAction, Function.update_self]
        rw [ExtractionWorld.next, hown] at hnext
        obtain ⟨⟨hpos, -⟩, heq⟩ := Option.ite_none_right_eq_some.1 hnext
        have hnew := List.all_eq_true.1 (List.all_eq_true.1 hnew t (mem_silverTables t))
        show TableMoves config jdbc _ _ (world t) (Function.update history.written t _ t) true
        rw [← Option.some.inj heq, Function.update_self]
        exact .write hpos fun x hx ↦ of_decide_eq_true (hnew x hx)
      · show TableMoves config jdbc _ _ (world t) (Function.update history.written u _ t) true
        rw [Function.update_of_ne hne]
        refine tableMoves_of_world_step hworld t (fun e' hown ↦ ?_) _
        rw [ExtractionWorld.tableAction, Function.update_of_ne hne] at hown
        cases hown
    | _ =>
      obtain ⟨world, hworld, rfl⟩ := Option.map_eq_some_iff.1 hstep
      exact tableMoves_of_world_step hworld t (tableAction_ne_write (fun _ _ h ↦ by cases h) t) _
  | purge u gone =>
    obtain ⟨hpassed, heq⟩ := Option.ite_none_right_eq_some.1 hstep
    obtain rfl := Option.some.inj heq
    rcases eq_or_ne t u with rfl | hne
    · show TableMoves config jdbc _ _ (Function.update history.world t _ t) _ true
      rw [Function.update_self]
      refine .purge fun e he hgone ↦ ?_
      -- a purge removes what every cursor has passed
      have hcursor := List.all_eq_true.1 hpassed e he
      rw [hgone] at hcursor
      obtain ⟨cursor, hsome, hle⟩ := (Option.any_eq_true _ _).1 hcursor
      rw [hsome]
      exact of_decide_eq_true hle
    · show TableMoves config jdbc _ _ (Function.update history.world u _ t) _ true
      rw [Function.update_of_ne hne]
      exact .same
  | replace events =>
    obtain rfl := Option.some.inj hstep
    exact .replace (events t)

/-! ### Runs -/

section Moves

variable {t : SilverTable} {table table' : ExtractedTable ℤ (SilverColumns t)}
  {written written' : List (ChangeEvent ℤ (SilverColumns t))}

/-- Whatever happens, a stage stays fresh. -/
theorem TableMoves.stageFresh {keeps : Bool}
    (h : TableMoves config jdbc table written table' written' keeps) (hfresh : table.StageFresh) :
    table'.StageFresh := by
  cases h with
  | same => exact hfresh
  | steps _ hsteps => exact hfresh.step hsteps
  | write _ _ | purge _ | replace _ => exact ⟨hfresh.state, hfresh.waits⟩

/-- As long as the log goes on, it has what the cursor has not passed. -/
theorem TableMoves.consumed (hjdbc : ∀ t, ReadsAllRows (jdbc t))
    (h : TableMoves config jdbc table written table' written' true) (hfresh : table.StageFresh)
    (hconsumed : table.Consumed written) : table'.Consumed written' := by
  cases h with
  | same => exact hconsumed
  | steps hno hsteps => exact hconsumed.step (hjdbc t) hfresh hno hsteps
  | write hpos hnew => exact hconsumed.write hpos hnew
  | purge hpassed => exact hconsumed.purge hpassed

end Moves

/-- The first invariant along a run. -/
theorem stageFresh_of_run {actions : List SourceAction}
    (hrun : Runs.run (SourceHistory.step config jdbc) empty actions = some history)
    (t : SilverTable) : (history.world t).StageFresh :=
  Runs.run_invariant_of_step (fun h : SourceHistory ↦ ∀ t, (h.world t).StageFresh)
    (fun _ _ _ hfresh hstep u ↦ (tableMoves_of_step hstep u).stageFresh (hfresh u))
    (fun _ ↦ ExtractedTable.stageFresh_empty) hrun t

/-- The second one, along a run without a replacement. -/
theorem consumed_of_run (hjdbc : ∀ t, ReadsAllRows (jdbc t)) {actions : List SourceAction}
    (hkeeps : ∀ a ∈ actions, a.keepsLog = true)
    (hrun : Runs.run (SourceHistory.step config jdbc) empty actions = some history)
    (t : SilverTable) : (history.world t).Consumed (history.written t) := by
  have halong : Runs.Along (SourceHistory.step config jdbc) (fun _ a ↦ a.keepsLog = true) empty
      actions := Runs.along_of_forall (fun a ha _ ↦ hkeeps a ha) _
  have hboth : ∀ t, (history.world t).StageFresh ∧
      (history.world t).Consumed (history.written t) := by
    refine Runs.run_invariant
      (fun h : SourceHistory ↦ ∀ t, (h.world t).StageFresh ∧ (h.world t).Consumed (h.written t))
      (fun h a h' hinv hkeep hstep u ↦ ?_)
      (fun _ ↦ ⟨ExtractedTable.stageFresh_empty, ExtractedTable.consumed_empty⟩) halong hrun
    have hmoves := tableMoves_of_step hstep u
    rw [hkeep] at hmoves
    exact ⟨hmoves.stageFresh (hinv u).1, hmoves.consumed hjdbc (hinv u).1 (hinv u).2⟩
  exact (hboth t).2

/-! ### The guard -/

variable (config jdbc history) in
/-- No step writes rows to a Bronze table. -/
def WritesNothing : Prop :=
  ∀ action history', history.step config jdbc action = some history' →
    ∀ t, bronzeTableRows (history'.world t).log = bronzeTableRows (history.world t).log

/-- Before the control query no table of the stage has its bound. -/
theorem bound_eq_none_of_awaitsBounds (h : history.awaitsBounds = true) {t : SilverTable}
    {run : TableExtraction ℤ (SilverColumns t)} (hrun : (history.world t).run = some run) :
    run.bound = none := by
  have hall := List.all_eq_true.1 (Bool.and_eq_true_iff.1 h).2 t (mem_silverTables t)
  rw [hrun] at hall
  exact Option.isNone_iff_eq_none.1 hall

/-- Before the control query nothing is written. -/
theorem TableMoves.rows_eq {t : SilverTable} {table table' : ExtractedTable ℤ (SilverColumns t)}
    {written written' : List (ChangeEvent ℤ (SilverColumns t))} {keeps : Bool}
    (h : TableMoves config jdbc table written table' written' keeps) (hfresh : table.StageFresh)
    (hwaits : ∀ run, table.run = some run → run.bound = none) :
    bronzeTableRows table'.log = bronzeTableRows table.log := by
  cases h with
  | same | write _ _ | purge _ | replace _ => rfl
  | steps hno hsteps =>
    cases hsteps with
    | write _ _ => exact absurd rfl (hno _)
    | optimize _ _ =>
      show bronzeTableRows (table.log ++ [⟨[], none⟩]) = _
      rw [bronzeTableRows, List.flatMap_append]
      exact List.append_nil _
    | @finish run rows hrun _ _ hread =>
      exact absurd (hread.symm.trans (hfresh.waits run hrun (hwaits run hrun)).1) (by simp)
    | begin _ _ | readBounds _ _ _ | materialize _ _ _ _ _ | finishIdle _ _ _ | killed _
    | complete _ _ => rfl

/-- Before the control query no action writes rows. -/
theorem writesNothing_of_awaitsBounds (hfresh : ∀ t, (history.world t).StageFresh)
    (h : history.awaitsBounds = true) : WritesNothing config jdbc history :=
  fun _ _ hstep t ↦ (tableMoves_of_step hstep t).rows_eq (hfresh t) fun _ hrun ↦
    bound_eq_none_of_awaitsBounds h hrun

/-- The guard is about the tables of the stage. -/
theorem regressed_eq_true_iff : history.regressed = true ↔ ∃ t run,
    (history.world t).run = some run ∧
      sequenceRegressed run.state (history.world t).events = true := by
  rw [regressed, List.any_eq_true]
  constructor
  · rintro ⟨t, -, h⟩
    obtain ⟨run, hrun, h⟩ := (Option.any_eq_true _ _).1 h
    exact ⟨t, run, hrun, h⟩
  · rintro ⟨t, run, hrun, h⟩
    exact ⟨t, mem_silverTables t, (Option.any_eq_true _ _).2 ⟨run, hrun, h⟩⟩

/-- The control query does not return where it raises. -/
theorem step_readBounds_of_regressed (h : history.regressed = true) :
    history.step config jdbc (.extraction .readBounds) = none := by
  obtain ⟨t, run, hrun, hregressed⟩ := regressed_eq_true_iff.1 h
  rcases hstep : history.step config jdbc (.extraction .readBounds) with - | history'
  · rfl
  · obtain ⟨world, hworld, -⟩ := Option.map_eq_some_iff.1 hstep
    have hnext := ExtractionWorld.step_spec hworld t
    have hown : history.world.tableAction .readBounds t = some .readBounds := by
      show (if (history.world t).run.isSome then some _ else none) = _
      rw [hrun]
      rfl
    rw [ExtractionWorld.next, hown] at hnext
    obtain ⟨run', hrun', hguard⟩ := Option.bind_eq_some_iff.1 hnext
    obtain rfl := Option.some.inj (hrun.symm.trans hrun')
    obtain ⟨hpassed, -⟩ := Option.ite_none_left_eq_some.1 hguard
    rw [hregressed, Bool.or_true] at hpassed
    exact absurd rfl hpassed

/-- **When the guard raises.** In every run of extractions the control query raises exactly when
some table of the stage exists and its newest change event is not in the log, as long as the log
only lost events the cursor had passed; and however the log was replaced, it raises when the log is
behind the cursor of a table of the stage, before anything is written. -/
theorem regressed_iff_of_run (hjdbc : ∀ t, ReadsAllRows (jdbc t)) {actions : List SourceAction}
    (hrun : Runs.run (SourceHistory.step config jdbc) empty actions = some history)
    (hawaits : history.awaitsBounds = true) :
    ((∀ a ∈ actions, a.keepsLog = true) →
      (history.regressed = true ↔ ∃ t, (history.world t).run.isSome = true ∧
        (history.world t).log ≠ [] ∧ ¬(history.world t).NewestKept (history.written t))) ∧
      ∀ t cursor, (history.world t).run.isSome = true →
        bronzeCursor (history.world t).log = some cursor →
        (∀ e ∈ (history.world t).events, e.eventId < cursor) →
        history.regressed = true ∧
          history.step config jdbc (.extraction .readBounds) = none ∧
          WritesNothing config jdbc history := by
  have hfresh := stageFresh_of_run hrun
  have hread : ∀ {t run}, (history.world t).run = some run →
      tableState (history.world t).log = some run.state := fun {t run} hstage ↦
    (hfresh t).state run hstage ((hfresh t).waits run hstage
      (bound_eq_none_of_awaitsBounds hawaits hstage)).2
  refine ⟨fun hkeeps ↦ ?_, fun t cursor hstage hcursor hbehind ↦ ?_⟩
  · have hconsumed := consumed_of_run hjdbc hkeeps hrun
    rw [regressed_eq_true_iff]
    constructor
    · rintro ⟨t, run, hstage, hregressed⟩
      have hstate := hread hstage
      rcases tableState_spec hstate with ⟨-, hnone⟩ | ⟨s, hs, hne, -⟩
      · rw [hnone] at hregressed
        cases hregressed
      · rw [hs] at hstate hregressed
        exact ⟨t, by rw [hstage]; rfl, hne, ((hconsumed t).regressed_iff hstate).1 hregressed⟩
    · rintro ⟨t, hsome, hne, hgone⟩
      obtain ⟨run, hstage⟩ := Option.isSome_iff_exists.1 hsome
      have hstate := hread hstage
      refine ⟨t, run, hstage, ?_⟩
      rcases tableState_spec hstate with ⟨hnil, -⟩ | ⟨s, hs, -⟩
      · exact absurd hnil hne
      · rw [hs] at hstate ⊢
        exact ((hconsumed t).regressed_iff hstate).2 hgone
  · obtain ⟨run, hstage⟩ := Option.isSome_iff_exists.1 hstage
    have hregressed : history.regressed = true := by
      refine regressed_eq_true_iff.2 ⟨t, run, hstage, ?_⟩
      rcases tableState_spec (hread hstage) with ⟨hnil, -⟩ | ⟨s, hs, -, -, -, hlast⟩
      · rw [hnil] at hcursor
        cases hcursor
      · rw [hs]
        refine ExtractedTable.sequenceRegressed_some_iff.2 fun e he ↦ ?_
        rw [← Option.some.inj (hcursor.symm.trans hlast)]
        exact hbehind e he
    exact ⟨hregressed, step_readBounds_of_regressed hregressed,
      writesNothing_of_awaitsBounds hfresh hawaits⟩

/-! ### False alarms -/

/-- A stage of the shops, from its beginning to its end. -/
def wholeShopStage (batchId : Text) : List SourceAction :=
  (ExtractionWorld.shopStage batchId ++ [ExtractionAction.complete]).map .extraction

/-- A stage of the shops begins. -/
def nextShopStage : SourceAction :=
  .extraction (.begin ['c'] fun t ↦ t = .shops)

/-- Two events of a shop are extracted and the first is purged; then another stage begins. -/
def purgedOnce : List SourceAction :=
  [.extraction (.write .shops (ExtractionWorld.shopChange 1)),
    .extraction (.write .shops (ExtractionWorld.shopChange 3))] ++ wholeShopStage ['b'] ++
    [.purge .shops fun e ↦ e.eventId = 1, nextShopStage]

/-- A read in one partition reads everything. -/
theorem readsAllRows_onePartition (t : SilverTable) :
    ReadsAllRows (ExtractionWorld.onePartition t) :=
  fun _ _ _ _ _ _ ↦ List.Perm.refl _

/-- The guard is silent, and the newest event is still there. -/
theorem regressed_iff_of_run_purgedOnce : ∃ history : SourceHistory,
    Runs.run (SourceHistory.step ExtractionWorld.smallPostgres ExtractionWorld.onePartition) empty
        purgedOnce = some history ∧
      ∀ t, (history.world t).run.isSome = true → (history.world t).log ≠ [] →
        (history.world t).NewestKept (history.written t) := by
  have hrun : ((Runs.run (SourceHistory.step ExtractionWorld.smallPostgres
      ExtractionWorld.onePartition) empty purgedOnce).any fun history ↦
        history.awaitsBounds && !history.regressed) = true := by
    decide +kernel
  obtain ⟨history, hhistory, hrun⟩ := (Option.any_eq_true _ _).1 hrun
  obtain ⟨hawaits, hsilent⟩ := Bool.and_eq_true_iff.1 hrun
  have hiff := (regressed_iff_of_run readsAllRows_onePartition hhistory hawaits).1 (by decide)
  refine ⟨history, hhistory, fun t hstage hcreated ↦ ?_⟩
  by_contra hgone
  rw [hiff.2 ⟨t, hstage, hcreated, hgone⟩] at hsilent
  cases hsilent

/-- **A table without events raises a false alarm**: its first extraction creates it with cursor 0,
and the next one finds no event in the log. -/
theorem regressed_of_noEvents :
    ¬∀ (config : PostgresConfig) (jdbc : (t : SilverTable) → PartitionedRead ℤ (SilverColumns t))
      (actions : List SourceAction) (history : SourceHistory), (∀ t, ReadsAllRows (jdbc t)) →
      Runs.run (SourceHistory.step config jdbc) empty actions = some history →
      history.awaitsBounds = true → (∀ a ∈ actions, a.keepsLog = true) →
      history.regressed = false := by
  intro h
  have hrun : ((Runs.run (SourceHistory.step ExtractionWorld.smallPostgres
      ExtractionWorld.onePartition) empty (wholeShopStage ['b'] ++ [nextShopStage])).any
        fun history ↦ history.awaitsBounds && history.regressed) = true := by
    decide +kernel
  obtain ⟨history, hhistory, hrun⟩ := (Option.any_eq_true _ _).1 hrun
  obtain ⟨hawaits, hregressed⟩ := Bool.and_eq_true_iff.1 hrun
  have hno := h _ _ _ history readsAllRows_onePartition hhistory hawaits (by decide)
  rw [hregressed] at hno
  cases hno

end SourceHistory

end LakehousePipeline
