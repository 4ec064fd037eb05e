import LakehousePipeline.Ingestion.BronzeStage
import LakehousePipeline.Library.RowLog
import LakehousePipeline.Silver.SnapshotEquality

/-!
# From the rows of the source to the rows of Silver

Every captured table of the source has the row trigger `capture_change_event`, which writes what a
statement did to a row into `change_events`, in the statement's transaction. So the change events
played back in the order of their ids are the tables (`Captured`). Extraction and Silver order the
events of a row by time first, and `occurred_at` is the time the transaction began, not the time it
wrote: of two transactions that change a row one after the other, the second may have begun first.
Silver has the rows of the source as of the cursor exactly where that does not happen to the last
change of a row (`mirrorsSource_of_run`).

The columns that have no place in a Silver table are left out, `password_hash` among them, which the
trigger drops. The actions are single rows: a transaction, with its cascades, is a list of them with
one time, and an extraction with a limit can end in the middle of one.
-/

namespace LakehousePipeline

variable {K P : Type}

/-! ### Changes of rows -/

/-- What a statement does to a row. Nothing changes a primary key. -/
inductive RowChange (K P : Type)
  | insert (row : BusinessRow K P)
  | update (row : BusinessRow K P)
  | delete (key : K)

namespace RowChange

/-- The primary key of the row. -/
def key : RowChange K P → K
  | .insert row | .update row => row.key
  | .delete key => key

/-- The row after the statement. -/
def after : RowChange K P → Option (BusinessRow K P)
  | .insert row | .update row => some row
  | .delete _ => none

/-- `TG_OP`. -/
def operation : RowChange K P → Operation
  | .insert _ => .insert
  | .update _ => .update
  | .delete _ => .delete

variable [DecidableEq K]

/-- The rows after the statement. A primary key is unique, and there is no update and no delete of a
row that is not there. -/
def apply (rows : List (BusinessRow K P)) : RowChange K P → Option (List (BusinessRow K P))
  | .insert row => if row.key ∈ rows.map fun old ↦ old.key then none else some (rows ++ [row])
  | .update row =>
    if row.key ∈ rows.map fun old ↦ old.key then
      some (rows.map fun old ↦ if old.key = row.key then row else old)
    else none
  | .delete key =>
    if key ∈ rows.map fun old ↦ old.key then some (rows.filter fun old ↦ old.key ≠ key) else none

/-- `capture_change_event`: the new row, or the old one where the row is deleted. -/
def captureChangeEvent (rows : List (BusinessRow K P)) (eventId : ℤ) (now : Timestamp)
    (change : RowChange K P) : Option (ChangeEvent K P) :=
  (change.after.or (MergeInto.lookup (fun row ↦ row.key) change.key rows)).map fun snapshot ↦
    { eventId := eventId
      key := some snapshot.key
      createdAt := snapshot.createdAt
      payload := snapshot.payload
      operation := some change.operation
      occurredAt := some now }

variable {rows rows' : List (BusinessRow K P)} {change : RowChange K P}

/-- An update changes the row of its key where there is one. -/
theorem lookup_map_update (row : BusinessRow K P) (rows : List (BusinessRow K P)) (k : K) :
    MergeInto.lookup (fun row ↦ row.key) k
        (rows.map fun old ↦ if old.key = row.key then row else old) =
      if row.key = k then (MergeInto.lookup (fun row ↦ row.key) k rows).map fun _ ↦ row
      else MergeInto.lookup (fun row ↦ row.key) k rows := by
  induction rows with
  | nil => simp
  | cons old rest ih =>
    simp only [MergeInto.lookup, List.map_cons, List.find?_cons] at ih ⊢
    by_cases hrow : row.key = k
    · subst hrow
      by_cases hold : old.key = row.key
      · simp [hold]
      · simpa [hold] using ih
    · by_cases hold : old.key = k
      · subst hold
        simp [hrow, Ne.symm hrow]
      · by_cases hsame : old.key = row.key
        · simpa [hrow, hsame] using ih
        · simpa [hrow, hold, hsame] using ih

/-- **A statement changes the row of its key**, and no other. -/
theorem lookup_apply (h : change.apply rows = some rows') (k : K) :
    MergeInto.lookup (fun row ↦ row.key) k rows' =
      if k = change.key then change.after else MergeInto.lookup (fun row ↦ row.key) k rows := by
  cases change with
  | insert row =>
    obtain ⟨hnew, heq⟩ := Option.ite_none_left_eq_some.1 h
    obtain rfl := Option.some.inj heq
    rw [MergeInto.lookup_append]
    show _ = if k = row.key then some row else _
    split
    case isTrue hk =>
      -- PostgreSQL refuses an inserted key that is there
      have hnone : MergeInto.lookup (fun row ↦ row.key) k rows = none :=
        MergeInto.lookup_eq_none.2 fun old hold heq ↦
          hnew (hk ▸ heq ▸ List.mem_map_of_mem hold)
      rw [hnone, Option.none_or]
      simp [MergeInto.lookup, hk]
    case isFalse hk => simp [MergeInto.lookup, Ne.symm hk]
  | update row =>
    obtain ⟨hin, heq⟩ := Option.ite_none_right_eq_some.1 h
    obtain rfl := Option.some.inj heq
    rw [lookup_map_update]
    show _ = if k = row.key then some row else _
    split
    case isTrue hk =>
      subst hk
      rw [if_pos rfl]
      cases hlookup : MergeInto.lookup (fun row ↦ row.key) row.key rows with
      | none =>
        obtain ⟨old, hold, hkey⟩ := List.mem_map.1 hin
        exact absurd hkey (MergeInto.lookup_eq_none.1 hlookup old hold)
      | some old => rfl
    case isFalse hk => rw [if_neg (Ne.symm hk)]
  | delete key =>
    obtain ⟨-, heq⟩ := Option.ite_none_right_eq_some.1 h
    obtain rfl := Option.some.inj heq
    show _ = if k = key then none else _
    split
    case isTrue hk =>
      refine MergeInto.lookup_eq_none.2 fun old hold ↦ ?_
      rw [hk]
      exact of_decide_eq_true (List.mem_filter.1 hold).2
    case isFalse hk =>
      exact MergeInto.lookup_filter (fun old hold ↦ decide_eq_true (hold ▸ hk)) rows

/-- Primary keys stay unique. -/
theorem nodup_apply (hkeys : (rows.map fun row ↦ row.key).Nodup)
    (h : change.apply rows = some rows') : (rows'.map fun row ↦ row.key).Nodup := by
  cases change with
  | insert row =>
    obtain ⟨hnew, heq⟩ := Option.ite_none_left_eq_some.1 h
    obtain rfl := Option.some.inj heq
    rw [List.map_append, List.map_singleton]
    exact List.nodup_append.2 ⟨hkeys, List.nodup_singleton _, fun k hk l hl ↦ by
      rw [List.mem_singleton.1 hl]
      rintro rfl
      exact hnew hk⟩
  | update row =>
    obtain ⟨-, heq⟩ := Option.ite_none_right_eq_some.1 h
    obtain rfl := Option.some.inj heq
    rw [List.map_map]
    have hsame : ((fun row ↦ row.key) ∘ fun old ↦ if old.key = row.key then row else old) =
        fun old : BusinessRow K P ↦ old.key := by
      funext old
      show (if old.key = row.key then row else old).key = old.key
      split
      case isTrue heq => exact heq.symm
      case isFalse => rfl
    rw [hsame]
    exact hkeys
  | delete key =>
    obtain ⟨-, heq⟩ := Option.ite_none_right_eq_some.1 h
    obtain rfl := Option.some.inj heq
    exact hkeys.sublist (List.filter_sublist.map _)

/-- What the trigger writes. -/
theorem captureChangeEvent_spec (h : change.apply rows = some rows') (eventId : ℤ)
    (now : Timestamp) : ∃ e, captureChangeEvent rows eventId now change = some e ∧
      e.eventId = eventId ∧ e.key = some change.key ∧ e.operation = some change.operation ∧
      e.occurredAt = some now ∧
      ∀ row, change.after = some row → e.createdAt = row.createdAt ∧ e.payload = row.payload := by
  cases change with
  | insert row | update row => exact ⟨_, rfl, rfl, rfl, rfl, rfl, fun row h ↦ by cases h; simp⟩
  | delete key =>
    obtain ⟨hin, -⟩ := Option.ite_none_right_eq_some.1 h
    cases hlookup : MergeInto.lookup (fun row ↦ row.key) key rows with
    | none =>
      obtain ⟨old, hold, hkey⟩ := List.mem_map.1 hin
      exact absurd hkey (MergeInto.lookup_eq_none.1 hlookup old hold)
    | some old =>
      refine ⟨_, by rw [captureChangeEvent]; exact congrArg _ hlookup, rfl, ?_, rfl, rfl,
        fun row h ↦ by cases h⟩
      exact congrArg some (MergeInto.mem_of_lookup hlookup).2

end RowChange

/-! ### Change events played back -/

/-- The row after a change event. -/
def ChangeEvent.after (e : ChangeEvent K P) : Option (BusinessRow K P) :=
  if e.operation = some .delete then none else e.key.map fun key ↦ ⟨key, e.createdAt, e.payload⟩

/-- The trigger records the key, the operation and the time. -/
def ChangeEvent.IsCaptured (e : ChangeEvent K P) : Prop :=
  ∃ key operation now, e.key = some key ∧ e.operation = some operation ∧
    operation ∈ changeOperations ∧ e.occurredAt = some now

section Replay

variable [DecidableEq K]

/-- The last change of a row. -/
def lastChange (events : List (ChangeEvent K P)) (k : K) : Option (ChangeEvent K P) :=
  RowLog.lastOf ChangeEvent.key (some k) events

/-- The row of a key after some change events. -/
def sourceRow (events : List (ChangeEvent K P)) (k : K) : Option (BusinessRow K P) :=
  RowLog.replay ChangeEvent.key ChangeEvent.after events (some k)

/-- **No change of a row is in a transaction that began after the one with its last change.** -/
def LastBeganLast (events : List (ChangeEvent K P)) (k : K) : Prop :=
  ∀ last ∈ lastChange events k, ∀ e ∈ events, e.key = some k →
    ∀ began ∈ e.occurredAt, ∀ lastBegan ∈ last.occurredAt, began ≤ lastBegan

/-- The row of a key never changes its `created_at`. -/
def CreatedOnce (events : List (ChangeEvent K P)) (k : K) : Prop :=
  ∀ e ∈ events, ∀ x ∈ events, e.key = some k → x.key = some k → e.createdAt = x.createdAt

/-- The row of a key is what its last change left. -/
theorem sourceRow_eq (events : List (ChangeEvent K P)) (k : K) :
    sourceRow events k = (lastChange events k).bind ChangeEvent.after :=
  RowLog.replay_eq events (some k)

/-- The trigger's event gives the row after the statement. -/
theorem after_of_captureChangeEvent {rows rows' : List (BusinessRow K P)} {change : RowChange K P}
    {eventId : ℤ} {now : Timestamp} {e : ChangeEvent K P} (h : change.apply rows = some rows')
    (he : change.captureChangeEvent rows eventId now = some e) : e.after = change.after := by
  obtain ⟨e', he', -, hkey, hoperation, -, hrow⟩ := RowChange.captureChangeEvent_spec h eventId now
  obtain rfl := Option.some.inj (he.symm.trans he')
  rw [ChangeEvent.after, hoperation, hkey]
  cases change with
  | insert row | update row =>
    obtain ⟨hcreated, hpayload⟩ := hrow row rfl
    rw [if_neg (by simp [RowChange.operation]), hcreated, hpayload]
    rfl
  | delete key => exact if_pos rfl

end Replay

/-! ### The source with its extraction -/

/-- Only `write` adds to the change events of a table. -/
theorem ExtractedTable.events_of_step {config : PostgresConfig} {jdbc : PartitionedRead K P}
    {table table' : ExtractedTable K P} {action : TableAction K P}
    (h : table.step config jdbc action = some table') :
    (∃ e, action = .write e ∧ table'.events = table.events ++ [e]) ∨
      (∀ e, action ≠ .write e) ∧ table'.events = table.events := by
  cases steps_of_step h with
  | write pos new => exact Or.inl ⟨_, rfl, rfl⟩
  | optimize | begin | readBounds | materialize | finishIdle | finish | killed | complete =>
    exact Or.inr ⟨fun _ heq ↦ (by cases heq), rfl⟩

/-- The captured tables of the source, their change events and their Bronze tables. -/
structure CapturedSource where
  /-- The rows of the source tables. -/
  rows : (t : SilverTable) → List (BusinessRow ℤ (SilverColumns t))
  /-- `change_events` and Bronze. -/
  extraction : ExtractionWorld

/-- What happens to the source and to Bronze. -/
inductive CaptureAction
  /-- A row of a table is changed, in a transaction that began at a time. -/
  | change (t : SilverTable) (change : RowChange ℤ (SilverColumns t)) (eventId : ℤ)
    (now : Timestamp)
  /-- Extraction and maintenance. -/
  | stage (action : ExtractionAction)

namespace CapturedSource

/-- Empty tables. -/
def empty : CapturedSource where
  rows _ := []
  extraction := .empty

/-- The change events of a table. -/
def events (source : CapturedSource) (t : SilverTable) : List (ChangeEvent ℤ (SilverColumns t)) :=
  (source.extraction t).events

/-- The change events of a table up to the cursor of its Bronze table. -/
def extractedEvents (source : CapturedSource) (t : SilverTable) :
    List (ChangeEvent ℤ (SilverColumns t)) :=
  PolledLog.upTo (fun e ↦ e.eventId) ((bronzeCursor (source.extraction t).log).getD 0)
    (source.events t)

variable (config : PostgresConfig) (jdbc : (t : SilverTable) → PartitionedRead ℤ (SilverColumns t))

/-- One action. Nothing but the trigger writes change events. -/
def step (source : CapturedSource) : CaptureAction → Option CapturedSource
  | .change t change eventId now =>
    (change.apply (source.rows t)).bind fun rows ↦
      (change.captureChangeEvent (source.rows t) eventId now).bind fun e ↦
        (source.extraction.step config jdbc (.write t e)).map fun extraction ↦
          { rows := Function.update source.rows t rows, extraction := extraction }
  | .stage (.write _ _) => none
  | .stage action => (source.extraction.step config jdbc action).map fun extraction ↦
      { source with extraction := extraction }

variable {config jdbc} {source source' : CapturedSource} {t : SilverTable}

/-- **The change events of a table are the changes of its rows.** -/
structure Captured (source : CapturedSource) (t : SilverTable) : Prop where
  /-- Primary keys are unique. -/
  unique : ((source.rows t).map fun row ↦ row.key).Nodup
  /-- Played back, the events give the rows. -/
  replays : ∀ k, MergeInto.lookup (fun row ↦ row.key) k (source.rows t) =
    sourceRow (source.events t) k
  /-- No event lacks what the extraction checks. -/
  captured : ∀ e ∈ source.events t, e.IsCaptured

/-- Empty tables have had no changes. -/
theorem captured_empty (t : SilverTable) : empty.Captured t where
  unique := List.nodup_nil
  replays _ := rfl
  captured _ he := by cases he

/-- What a step of the extraction leaves of the change events. -/
theorem events_of_stage {extraction : ExtractionWorld} {action : ExtractionAction}
    (hstep : source.extraction.step config jdbc action = some extraction)
    (hwrite : ∀ t e, action ≠ .write t e) (t : SilverTable) :
    (extraction t).events = source.events t := by
  have hnext := ExtractionWorld.step_spec hstep t
  rw [ExtractionWorld.next] at hnext
  split at hnext
  · rw [← Option.some.inj hnext]
    rfl
  · rename_i own hown
    rcases ExtractedTable.events_of_step hnext with ⟨e, rfl, -⟩ | ⟨-, heq⟩
    · cases action with
      | write t' e' => exact absurd rfl (hwrite t' e')
      | optimize t' | materialize t' | finish t' =>
        rw [ExtractionWorld.tableAction] at hown
        rcases eq_or_ne t t' with rfl | hne
        · rw [Function.update_self] at hown
          cases hown
        · rw [Function.update_of_ne hne] at hown
          cases hown
      | begin batchId tables => cases (Option.ite_none_right_eq_some.1 hown).2
      | readBounds | killed | complete => cases (Option.ite_none_right_eq_some.1 hown).2
    · exact heq

/-- What a change of a row leaves of the change events. -/
theorem events_of_write {extraction : ExtractionWorld} {e : ChangeEvent ℤ (SilverColumns t)}
    (hstep : source.extraction.step config jdbc (.write t e) = some extraction) :
    (extraction t).events = source.events t ++ [e] ∧
      ∀ t' ≠ t, (extraction t').events = source.events t' := by
  have hnext := ExtractionWorld.step_spec hstep
  refine ⟨?_, fun t' hne ↦ ?_⟩
  · have hown := hnext t
    rw [ExtractionWorld.next, ExtractionWorld.tableAction, Function.update_self] at hown
    rcases ExtractedTable.events_of_step hown with ⟨e', heq, hevents⟩ | ⟨hnot, -⟩
    · rw [hevents, TableAction.write.inj heq]
      rfl
    · exact absurd rfl (hnot e)
  · have hother := hnext t'
    rw [ExtractionWorld.next, ExtractionWorld.tableAction, Function.update_of_ne hne] at hother
    rw [← Option.some.inj hother]
    rfl

/-- **Every step keeps the change events complete.** -/
theorem Captured.step (h : ∀ t, source.Captured t) {action : CaptureAction}
    (hstep : source.step config jdbc action = some source') (t : SilverTable) :
    source'.Captured t := by
  -- a step of the extraction writes nothing at the source
  have hstage : ∀ {action : ExtractionAction}, (∀ t e, action ≠ .write t e) →
      ((source.extraction.step config jdbc action).map fun extraction ↦
        { source with extraction := extraction }) = some source' → source'.Captured t := by
    intro action hwrite hmap
    obtain ⟨extraction, hextraction, rfl⟩ := Option.map_eq_some_iff.1 hmap
    have hevents := events_of_stage hextraction hwrite t
    exact ⟨(h t).unique, fun k ↦ ((h t).replays k).trans (by rw [events, events, hevents]; rfl),
      fun e he ↦ (h t).captured e (by rwa [events, hevents] at he)⟩
  cases action with
  | stage action =>
    cases action with
    | write t e => cases hstep
    | optimize | begin | readBounds | materialize | finish | killed | complete =>
      exact hstage (fun _ _ heq ↦ by cases heq) hstep
  | change t₀ change eventId now =>
    obtain ⟨rows, hrows, hstep⟩ := Option.bind_eq_some_iff.1 hstep
    obtain ⟨e, he, hstep⟩ := Option.bind_eq_some_iff.1 hstep
    obtain ⟨extraction, hextraction, rfl⟩ := Option.map_eq_some_iff.1 hstep
    obtain ⟨hown, hothers⟩ := events_of_write hextraction
    rcases eq_or_ne t t₀ with rfl | hne
    · -- the trigger writes the event in the transaction of the change
      obtain ⟨e', he', -, hkey, hoperation, hnow, -⟩ :=
        RowChange.captureChangeEvent_spec hrows eventId now
      obtain rfl := Option.some.inj (he.symm.trans he')
      refine ⟨?_, fun k ↦ ?_, fun x hx ↦ ?_⟩
      · show ((Function.update source.rows t rows t).map _).Nodup
        rw [Function.update_self]
        exact RowChange.nodup_apply (h t).unique hrows
      · show MergeInto.lookup _ k (Function.update source.rows t rows t) =
          sourceRow (extraction t).events k
        rw [Function.update_self, hown, sourceRow, RowLog.replay_concat, RowLog.apply,
          RowChange.lookup_apply hrows, hkey, after_of_captureChangeEvent hrows he,
          Function.update_apply, (h t).replays k]
        exact if_congr (Option.some_inj.symm) rfl rfl
      · rw [events, hown] at hx
        rcases List.mem_append.1 hx with hx | hx
        · exact (h t).captured x hx
        · rw [List.mem_singleton.1 hx]
          refine ⟨_, _, _, hkey, hoperation, ?_, hnow⟩
          cases change <;> simp [RowChange.operation, changeOperations]
    · have hrows : Function.update source.rows t₀ rows t = source.rows t :=
        Function.update_of_ne hne _ _
      refine ⟨?_, fun k ↦ ?_, fun x hx ↦ (h t).captured x ?_⟩
      · show ((Function.update source.rows t₀ rows t).map _).Nodup
        rw [hrows]
        exact (h t).unique
      · show MergeInto.lookup _ k (Function.update source.rows t₀ rows t) =
          sourceRow (extraction t).events k
        rw [hrows, hothers t hne]
        exact (h t).replays k
      · rwa [events, hothers t hne] at hx

/-- What the extraction keeps, it keeps here. -/
theorem sound_step (hjdbc : ∀ t, ReadsAllRows (jdbc t))
    (h : ∀ t, (source.extraction t).Sound config) {action : CaptureAction}
    (hstep : source.step config jdbc action = some source') (t : SilverTable) :
    (source'.extraction t).Sound config := by
  have hmap : ∀ {extraction : ExtractionWorld} {action : ExtractionAction},
      source.extraction.step config jdbc action = some extraction →
        (extraction t).Sound config :=
    fun hextraction ↦ ExtractionWorld.sound_step hjdbc h hextraction t
  cases action with
  | stage action =>
    cases action with
    | write t e => cases hstep
    | optimize | begin | readBounds | materialize | finish | killed | complete =>
      obtain ⟨extraction, hextraction, rfl⟩ := Option.map_eq_some_iff.1 hstep
      exact hmap hextraction
  | change t₀ change eventId now =>
    obtain ⟨rows, -, hstep⟩ := Option.bind_eq_some_iff.1 hstep
    obtain ⟨e, -, hstep⟩ := Option.bind_eq_some_iff.1 hstep
    obtain ⟨extraction, hextraction, rfl⟩ := Option.map_eq_some_iff.1 hstep
    exact hmap hextraction

/-- The run lemma. -/
theorem captured_of_run (hjdbc : ∀ t, ReadsAllRows (jdbc t)) {actions : List CaptureAction}
    (hrun : Runs.run (step config jdbc) empty actions = some source) (t : SilverTable) :
    source.Captured t ∧ (source.extraction t).Sound config :=
  Runs.run_invariant_of_step
    (fun s : CapturedSource ↦ ∀ t, s.Captured t ∧ (s.extraction t).Sound config)
    (fun _ _ _ h hstep t ↦ ⟨Captured.step (fun t ↦ (h t).1) hstep t,
      sound_step hjdbc (fun t ↦ (h t).2) hstep t⟩)
    (fun t ↦ ⟨captured_empty t, ExtractedTable.sound_empty⟩) hrun t

end CapturedSource

end LakehousePipeline
