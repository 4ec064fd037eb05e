import LakehousePipeline.Source.ChangeCapture

/-!
# Silver as a copy of the source

What a Batch Silver table shows is compared with the rows of the source as of the cursor of its
Bronze table, for any run of the source and its extraction and any split of the Bronze commits into
Silver runs. The row of a key is made of its last change exactly if no change of the row is in a
transaction that began later (`mirrorsSource_of_run`). Then Silver shows the row, cleaned, or shows
none where the row is deleted. Otherwise it keeps an older state of the row, for good: no later
change is needed for the two to differ.

## Two orders on the changes of a row

The source applies changes in the order of their ids: the trigger that records a change draws its id
while it holds the row. Silver takes the row with the greatest sequence, and the first column of the
sequence is the time of the change, which in PostgreSQL is the start of its transaction. The ids
break ties only. So the last change of a row is the newest in Silver exactly if no other change of
the row is in a transaction that began later (`LastBeganLast`, `isNewest_iff_lastBeganLast`).

## From the log to the table

* `RowsOf` relates the change events up to the cursor with the Bronze rows made of them, one each,
  as the extraction leaves them (`rowsOf_of_holdsEvents`).
* What Batch runs leave of the rows of a key does not depend on how they are split into runs: the
  payload of the newest row, with the `created_at` of the first.
* `MirrorsSource` compares this with the source for one key. The comparison of `created_at` asks in
  addition that the source never changes it (`CreatedOnce`).
-/

namespace LakehousePipeline

variable {K P : Type}

/-! ### Rows made of change events -/

/-- A Bronze row has what the change event has. -/
structure ChangeEvent.RowOf (e : ChangeEvent K P) (row : BronzeEvent K P) : Prop where
  key : e.key = some row.key
  createdAt : row.createdAt = e.createdAt
  payload : row.payload = e.payload
  operation : e.operation = some row.operation
  occurredAt : row.eventOccurredAt = e.occurredAt
  eventId : row.eventId = .number e.eventId
  batch : row.isStreamingCdc = false

/-- What the extraction makes of a change event has what the event has. -/
theorem rowOf_of_makesRow {e : ChangeEvent K P} {row : BronzeEvent K P} (h : e.MakesRow row) :
    e.RowOf row := by
  obtain ⟨batchId, h⟩ := h
  rw [ChangeEvent.bronzeEvent?] at h
  split at h
  · rename_i key operation occurredAt hkey hoperation hoccurred
    obtain ⟨-, heq⟩ := Option.ite_none_right_eq_some.1 h
    obtain rfl := Option.some.inj heq
    exact ⟨hkey, rfl, rfl, hoperation, hoccurred.symm, rfl, rfl⟩
  · cases h

namespace ChangeEvent.RowOf

variable {e e' : ChangeEvent K P} {row row' : BronzeEvent K P}

/-- The sequence of such a row: its time, the rank of Batch, and its id. -/
theorem sequenceColumns_eq (h : e.RowOf row) :
    row.sequenceColumns = [e.occurredAt, some 1, some e.eventId, some 0] := by
  have hmode : row.ingestionMode = .batch := by
    rw [BronzeEvent.ingestionMode, h.batch]
    rfl
  rw [BronzeEvent.sequenceColumns, BronzeEvent.ingestionPriority, BronzeEvent.sourceEventSequence,
    BronzeEvent.sourceEventSubsequence, hmode, h.occurredAt, h.eventId]
  rfl

/-- Rows are in the order of their times, and of their ids where these are equal. -/
theorem sequence_lt_iff (h : e.RowOf row) (h' : e'.RowOf row') {began began' : Timestamp}
    (hbegan : e.occurredAt = some began) (hbegan' : e'.occurredAt = some began') :
    row.sequence < row'.sequence ↔
      began < began' ∨ began = began' ∧ e.eventId < e'.eventId := by
  rw [BronzeEvent.sequence, BronzeEvent.sequence, h.sequenceColumns_eq, h'.sequenceColumns_eq,
    hbegan, hbegan']
  show ([(began : WithBot ℤ), ((1 : ℤ) : WithBot ℤ), (e.eventId : WithBot ℤ),
      ((0 : ℤ) : WithBot ℤ)] : List (WithBot ℤ)) <
    [(began' : WithBot ℤ), ((1 : ℤ) : WithBot ℤ), (e'.eventId : WithBot ℤ),
      ((0 : ℤ) : WithBot ℤ)] ↔ _
  simp only [List.cons_lt_cons_iff, lt_self_iff_false, and_false, or_false, false_or, true_and,
    WithBot.coe_lt_coe, WithBot.coe_inj]

/-- The sequence in the row is the id. -/
theorem sourceEventSequence (h : e.RowOf row) : row.sourceEventSequence = some e.eventId := by
  have hmode : row.ingestionMode = .batch := by
    rw [BronzeEvent.ingestionMode, h.batch]
    rfl
  rw [BronzeEvent.sourceEventSequence, hmode, h.eventId]
  rfl

end ChangeEvent.RowOf

/-- The rows are those of the change events, one each. -/
structure RowsOf (events : List (ChangeEvent K P)) (rows : List (BronzeEvent K P)) : Prop where
  row : ∀ e ∈ events, ∃ row ∈ rows, e.RowOf row
  event : ∀ row ∈ rows, ∃ e ∈ events, e.RowOf row
  nodup : (rows.map fun row ↦ row.eventId).Nodup

/-- Rows made of the events of a range, one each and in their order. -/
theorem rowsOf_of_forall₂ {found : List (ChangeEvent K P)} {rows : List (BronzeEvent K P)}
    (h : List.Forall₂ ChangeEvent.MakesRow found rows) :
    (∀ e ∈ found, ∃ row ∈ rows, e.RowOf row) ∧ (∀ row ∈ rows, ∃ e ∈ found, e.RowOf row) ∧
      (rows.map fun row ↦ row.eventId) = found.map fun e ↦ BronzeEventId.number e.eventId := by
  induction h with
  | nil => exact ⟨fun _ he ↦ (by cases he), fun _ he ↦ (by cases he), rfl⟩
  | @cons e row found rows hmakes _ ih =>
    obtain ⟨hrow, hevent, hids⟩ := ih
    have hof := rowOf_of_makesRow hmakes
    refine ⟨fun x hx ↦ ?_, fun x hx ↦ ?_, ?_⟩
    · rcases List.mem_cons.1 hx with rfl | hx
      · exact ⟨row, List.mem_cons_self, hof⟩
      · obtain ⟨y, hy, hxy⟩ := hrow x hx
        exact ⟨y, List.mem_cons_of_mem _ hy, hxy⟩
    · rcases List.mem_cons.1 hx with rfl | hx
      · exact ⟨e, List.mem_cons_self, hof⟩
      · obtain ⟨y, hy, hxy⟩ := hevent x hx
        exact ⟨y, List.mem_cons_of_mem _ hy, hxy⟩
    · rw [List.map_cons, List.map_cons, hids, hof.eventId]

/-- What a Bronze table holds are the rows of the events up to the cursor. -/
theorem rowsOf_of_holdsEvents {events : List (ChangeEvent K P)} {cursor : ℤ}
    {rows : List (BronzeEvent K P)} (hlog : PolledLog.Increasing (fun e ↦ e.eventId) events)
    (h : HoldsEvents events cursor rows) :
    RowsOf (PolledLog.upTo (fun e ↦ e.eventId) cursor events) rows := by
  obtain ⟨found, hperm, hmakes⟩ := h
  obtain ⟨hrow, hevent, hids⟩ := rowsOf_of_forall₂ hmakes
  refine ⟨fun e he ↦ hrow e (hperm.mem_iff.2 he), fun row hr ↦ ?_, ?_⟩
  · obtain ⟨e, he, hof⟩ := hevent row hr
    exact ⟨e, hperm.mem_iff.1 he, hof⟩
  · have hnodup : (found.map fun e ↦ e.eventId).Nodup := by
      refine (hperm.map _).nodup_iff.2 ?_
      exact ((List.pairwise_map.2 hlog).imp fun hlt ↦ ne_of_lt hlt).sublist
        (List.filter_sublist.map _)
    rw [hids]
    have hmap : (found.map fun e ↦ BronzeEventId.number e.eventId) =
        (found.map fun e ↦ e.eventId).map BronzeEventId.number := by
      rw [List.map_map]
      rfl
    rw [hmap]
    exact hnodup.map fun a b hab ↦ BronzeEventId.number.inj hab

/-- Such rows are all of the Batch path. -/
theorem RowsOf.isBatchLog {events : List (ChangeEvent K P)} {rows : List (BronzeEvent K P)}
    (h : RowsOf events rows) : IsBatchLog rows where
  batch row hrow := by
    obtain ⟨e, -, hof⟩ := h.event row hrow
    exact ⟨hof.batch, e.eventId, hof.eventId⟩
  nodup := h.nodup

/-! ### The newest row of a key -/

section Newest

variable [DecidableEq K] {events : List (ChangeEvent K P)} {rows : List (BronzeEvent K P)} {k : K}
  {last : ChangeEvent K P}

/-- The last change of a row has the greatest id. -/
theorem eventId_le_of_lastChange (hlog : PolledLog.Increasing (fun e ↦ e.eventId) events)
    (hlast : lastChange events k = some last) {e : ChangeEvent K P} (he : e ∈ events)
    (hkey : e.key = some k) : e.eventId ≤ last.eventId := by
  have hkeyLog : PolledLog.Increasing (fun e ↦ e.eventId)
      (events.filter fun e ↦ e.key = some k) := hlog.filter _
  exact hkeyLog.le_getLast? (List.mem_filter.2 ⟨he, decide_eq_true hkey⟩) hlast

/-- **The row of the last change is the newest of the key** exactly if no change of the row began
later. -/
theorem isNewest_iff_lastBeganLast (hlog : PolledLog.Increasing (fun e ↦ e.eventId) events)
    (hcaptured : ∀ e ∈ events, e.IsCaptured) (h : RowsOf events rows)
    (hlast : lastChange events k = some last) {row : BronzeEvent K P} (hrow : row ∈ rows)
    (hof : last.RowOf row) :
    LastWriterWins.IsNewest (fun e ↦ e.sequence) (eventsOf k rows) row ↔
      LastBeganLast events k := by
  obtain ⟨hmem, hkey⟩ := RowLog.mem_of_lastOf hlast
  have hrowKey : row.key = k := Option.some.inj (hof.key.symm.trans hkey)
  constructor
  · rintro ⟨-, hmax⟩ last' hlast' e he hekey began hbegan lastBegan hlastBegan
    obtain rfl := Option.some.inj (hlast.symm.trans hlast')
    obtain ⟨x, hx, hxof⟩ := h.row e he
    have hxkey : x.key = k := Option.some.inj (hxof.key.symm.trans hekey)
    refine le_of_not_gt fun hlt ↦ ?_
    exact (hmax x (mem_eventsOf.2 ⟨hx, hxkey⟩)).not_gt
      ((hof.sequence_lt_iff hxof hlastBegan hbegan).2 (Or.inl hlt))
  · refine fun hbegan ↦ ⟨mem_eventsOf.2 ⟨hrow, hrowKey⟩, fun x hx ↦ le_of_not_gt fun hlt ↦ ?_⟩
    obtain ⟨hx, hxkey⟩ := mem_eventsOf.1 hx
    obtain ⟨e, he, heof⟩ := h.event x hx
    have hekey : e.key = some k := heof.key.trans (congrArg some hxkey)
    obtain ⟨-, -, lastBegan, -, -, -, hlastBegan⟩ := hcaptured last hmem
    obtain ⟨-, -, began, -, -, -, hebegan⟩ := hcaptured e he
    have hle := hbegan last hlast e he hekey began hebegan lastBegan hlastBegan
    rcases (hof.sequence_lt_iff heof hlastBegan hebegan).1 hlt with hafter | ⟨-, hid⟩
    · exact absurd hle (not_le_of_gt hafter)
    · exact absurd (eventId_le_of_lastChange hlog hlast he hekey) (not_le_of_gt hid)

/-- The row the key was first written from is a row of the key. -/
theorem mem_of_firstWritten {runs : List (List (List (BronzeEvent K P)))} {w : BronzeEvent K P}
    (h : firstWritten k runs = some w) : w ∈ eventsOf k runs.flatten.flatten := by
  obtain ⟨run, hrun, hnewest⟩ := List.exists_of_findSome?_eq_some h
  obtain ⟨hmem, -⟩ := LastWriterWins.isNewest_of_newest hnewest
  obtain ⟨hin, hkey⟩ := mem_eventsOf.1 hmem
  obtain ⟨commit, hcommit, hin⟩ := List.mem_flatten.1 hin
  exact mem_eventsOf.2 ⟨List.mem_flatten.2 ⟨commit, List.mem_flatten.2 ⟨run, hrun, hcommit⟩, hin⟩,
    hkey⟩

end Newest

/-! ### What Silver shows -/

section Mirror

variable [DecidableEq K]

/-- **How a Silver table has the row of a key**, compared with the row in the source. -/
structure MirrorsSource (clean : P → P) (events : List (ChangeEvent K P))
    (table : List (SilverRow K P)) (k : K) : Prop where
  /-- There is no row of a key that was never there. -/
  absent : lastChange events k = none → MergeInto.lookup (fun row ↦ row.key) k table = none
  /-- The row is made of the last change exactly if no change of it began later. -/
  current : ∀ last ∈ lastChange events k,
    (∃ row, MergeInto.lookup (fun row ↦ row.key) k table = some row ∧
      row.sourceEventSequence = some last.eventId) ↔ LastBeganLast events k
  /-- Then it is shown as it is in the source, and not where it is deleted there. -/
  shown : LastBeganLast events k →
    (visibleRow table k).map (fun row ↦ (row.key, row.payload)) =
      (sourceRow events k).map fun row ↦ (row.key, clean row.payload)
  /-- With its `created_at`, where that never changes. -/
  created : LastBeganLast events k → CreatedOnce events k →
    (visibleRow table k).map SilverRow.business =
      (sourceRow events k).map fun row ↦ { row with payload := clean row.payload }

variable {events : List (ChangeEvent K P)} {rows : List (BronzeEvent K P)} {k : K}
  {last : ChangeEvent K P}

/-- A key has a newest row as soon as it has a change event. -/
theorem newestIn_eq_none_iff (h : RowsOf events rows) {commits : List (List (BronzeEvent K P))}
    (hcommits : commits.flatten = rows) (k : K) :
    newestIn k commits = none ↔ lastChange events k = none := by
  have hnil : newestIn k commits = none ↔ eventsOf k commits.flatten = [] :=
    LastWriterWins.newest_eq_none_iff
  rw [hnil, eventsOf, List.filter_eq_nil_iff, lastChange, RowLog.lastOf_eq_none_iff, hcommits]
  constructor
  · rintro hno e he hkey
    obtain ⟨x, hx, hof⟩ := h.row e he
    refine hno x hx (decide_eq_true ?_)
    exact Option.some.inj (hof.key.symm.trans hkey)
  · intro hno x hx
    obtain ⟨e, he, hof⟩ := h.event x hx
    rw [decide_eq_true_iff]
    rintro rfl
    exact hno e he hof.key

/-- Where no change of the row began later, its newest row is that of the last change. -/
theorem newestIn_of_lastBeganLast (hlog : PolledLog.Increasing (fun e ↦ e.eventId) events)
    (hcaptured : ∀ e ∈ events, e.IsCaptured) (h : RowsOf events rows)
    {commits : List (List (BronzeEvent K P))} (hcommits : commits.flatten = rows)
    (hlast : lastChange events k = some last) {row : BronzeEvent K P} (hrow : row ∈ rows)
    (hof : last.RowOf row) (hbegan : LastBeganLast events k) :
    newestIn k commits = some row := by
  have hstamps : LastWriterWins.StampsIdentify (fun e : BronzeEvent K P ↦ e.sequence)
      (eventsOf k commits.flatten) := by
    have hdistinct := (h.isBatchLog.distinctSequences (List.Subset.refl _)).stampsIdentify k
    rw [hcommits]
    exact hdistinct.mono fun e he ↦ mem_eventsOfPieces.2
      ⟨_, List.mem_singleton_self _, mem_eventsOf.1 he⟩
  refine (LastWriterWins.newest_eq_some_iff hstamps).2 ?_
  rw [hcommits]
  exact (isNewest_iff_lastBeganLast hlog hcaptured h hlast hrow hof).2 hbegan

/-- Where the newest row is that of the last change, no change of the row began later. -/
theorem lastBeganLast_of_newestIn (hlog : PolledLog.Increasing (fun e ↦ e.eventId) events)
    (hcaptured : ∀ e ∈ events, e.IsCaptured) (h : RowsOf events rows)
    {commits : List (List (BronzeEvent K P))} (hcommits : commits.flatten = rows)
    (hlast : lastChange events k = some last) {row : BronzeEvent K P}
    (hnewest : newestIn k commits = some row)
    (hid : row.sourceEventSequence = some last.eventId) : LastBeganLast events k := by
  have hrow := LastWriterWins.isNewest_of_newest hnewest
  rw [hcommits] at hrow
  obtain ⟨e, he, hof⟩ := h.event row (mem_eventsOf.1 hrow.1).1
  have heq : e.eventId = last.eventId := Option.some.inj (hof.sourceEventSequence.symm.trans hid)
  obtain rfl := hlog.eq_of_stamp_eq he (RowLog.mem_of_lastOf hlast).1 heq
  exact (isNewest_iff_lastBeganLast hlog hcaptured h hlast (mem_eventsOf.1 hrow.1).1 hof).1 hrow

/-- The row the source has after the last change. -/
theorem sourceRow_of_lastChange (hlast : lastChange events k = some last) :
    sourceRow events k =
      if last.operation = some .delete then none
      else some ⟨k, last.createdAt, last.payload⟩ := by
  obtain ⟨-, hkey⟩ := RowLog.mem_of_lastOf hlast
  rw [sourceRow_eq, hlast, Option.bind_some, ChangeEvent.after, hkey]
  rfl

/-- Where the newest row is that of the last change, what Silver shows is what the source has. -/
theorem visibleRow_of_newest (fns : SparkFunctions) (clean : P → P)
    {table : List (SilverRow K P)} (hkeys : (table.map fun row ↦ row.key).Nodup)
    (hlast : lastChange events k = some last) {row : BronzeEvent K P} (hof : last.RowOf row)
    {written : Option (BronzeEvent K P)}
    (hlookup : MergeInto.lookup (fun row ↦ row.key) k table =
      some ((mergedRow fns clean row).withCreatedAt written)) :
    (visibleRow table k).map SilverRow.business =
      (sourceRow events k).map fun source ↦
        { key := source.key
          createdAt := (written.map fun e ↦ e.createdAt).getD source.createdAt
          payload := clean source.payload } := by
  obtain ⟨-, hkey⟩ := RowLog.mem_of_lastOf hlast
  have hrowKey : row.key = k := Option.some.inj (hof.key.symm.trans hkey)
  have hdeleted : last.operation = some .delete ↔ row.operation = .delete := by
    rw [hof.operation]
    exact Option.some_inj
  rw [visibleRow_eq_filter hkeys, hlookup, sourceRow_of_lastChange hlast]
  by_cases hdelete : row.operation = .delete
  · have hhidden : ((mergedRow fns clean row).withCreatedAt written).isDeleted = true :=
      decide_eq_true hdelete
    rw [if_pos (hdeleted.2 hdelete), Option.filter_some, hhidden]
    rfl
  · have hshown : ((mergedRow fns clean row).withCreatedAt written).isDeleted = false :=
      decide_eq_false hdelete
    rw [if_neg (mt hdeleted.1 hdelete), Option.filter_some, hshown, ← hof.createdAt,
      ← hof.payload, ← hrowKey]
    rfl

/-! ### What Batch runs leave -/

variable [DecidableEq P]

/-- **Batch runs over the rows of change events** leave the source as of the last of them. -/
theorem mirrorsSource (fns : SparkFunctions) (clean : P → P)
    (hlog : PolledLog.Increasing (fun e ↦ e.eventId) events)
    (hcaptured : ∀ e ∈ events, e.IsCaptured)
    {first : List (List (BronzeEvent K P))} {later : List (List (List (BronzeEvent K P)))}
    (h : RowsOf events (first :: later).flatten.flatten) :
    ∃ table, incrementalSilver fns clean first later = some table ∧
      ∀ k, MirrorsSource clean events table k := by
  obtain ⟨table, htable, hkeys, hkept⟩ := keptRow_incrementalSilver fns clean h.isBatchLog
  refine ⟨table, htable, fun k ↦ ?_⟩
  rcases hlast : lastChange events k with - | last
  -- no change of the key: no row in Silver and none in the source
  · have hlookup : MergeInto.lookup (fun row ↦ row.key) k table = none := by
      rw [hkept, keptRow, (newestIn_eq_none_iff h rfl k).2 hlast]
      rfl
    have hvisible : visibleRow table k = none := by
      rw [visibleRow_eq_filter hkeys, hlookup]
      rfl
    have hsource : sourceRow events k = none := by
      rw [sourceRow_eq, hlast]
      rfl
    refine ⟨fun _ ↦ hlookup, fun last hmem ↦ ?_, fun _ ↦ ?_, fun _ _ ↦ ?_⟩
    · rw [hlast] at hmem
      cases hmem
    all_goals
      rw [hvisible, hsource]
      rfl
  · -- the last change of the key, and the Bronze row it was extracted to
    obtain ⟨hmem, hkey⟩ := RowLog.mem_of_lastOf hlast
    obtain ⟨row, hrow, hof⟩ := h.row last hmem
    have hlookup : LastBeganLast events k → MergeInto.lookup (fun row ↦ row.key) k table =
        some ((mergedRow fns clean row).withCreatedAt (firstWritten k (first :: later))) := by
      intro hbegan
      rw [hkept, keptRow, newestIn_of_lastBeganLast hlog hcaptured h rfl hlast hrow hof hbegan]
      rfl
    refine ⟨fun hnone ↦ ?_, fun last' hlast' ↦ ⟨?_, fun hbegan ↦ ?_⟩, fun hbegan ↦ ?_,
      fun hbegan hcreated ↦ ?_⟩
    · rw [hlast] at hnone
      cases hnone
    · obtain rfl := Option.some.inj (hlast.symm.trans hlast')
      rintro ⟨silver, hsilver, hid⟩
      obtain ⟨newest, hnewest, rfl⟩ := Option.map_eq_some_iff.1 ((hkept k).symm.trans hsilver)
      exact lastBeganLast_of_newestIn hlog hcaptured h rfl hlast hnewest hid
    · obtain rfl := Option.some.inj (hlast.symm.trans hlast')
      exact ⟨_, hlookup hbegan, hof.sourceEventSequence⟩
    · have hbusiness := congrArg (Option.map fun row ↦ (row.key, row.payload))
        (visibleRow_of_newest fns clean hkeys hlast hof (hlookup hbegan))
      rwa [Option.map_map, Option.map_map] at hbusiness
    · rw [visibleRow_of_newest fns clean hkeys hlast hof (hlookup hbegan)]
      refine Option.map_congr fun source hsource ↦ ?_
      rw [sourceRow_of_lastChange hlast] at hsource
      obtain ⟨-, hsource⟩ := Option.ite_none_left_eq_some.1 hsource
      obtain rfl := Option.some.inj hsource
      rcases hwritten : firstWritten k (first :: later) with - | w
      · rfl
      · -- the first write of the key has the same `created_at` as its last change
        obtain ⟨hw, hwkey⟩ := mem_eventsOf.1 (mem_of_firstWritten hwritten)
        obtain ⟨e, he, heof⟩ := h.event w hw
        have hsame := hcreated e he last hmem (heof.key.trans (congrArg some hwkey)) hkey
        rw [← heof.createdAt] at hsame
        rw [Option.map_some, Option.getD_some, hsame]

end Mirror

/-! ### Runs of the source -/

namespace CapturedSource

variable {config : PostgresConfig}
  {jdbc : (t : SilverTable) → PartitionedRead ℤ (SilverColumns t)} {source : CapturedSource}

/-- Where everything is extracted, the rows as of the cursor are the rows. -/
theorem sourceRow_extractedEvents {t : SilverTable} (h : source.Captured t)
    (hextracted : ∀ e ∈ source.events t,
      e.eventId ≤ (bronzeCursor (source.extraction t).log).getD 0) (k : ℤ) :
    sourceRow (source.extractedEvents t) k =
      MergeInto.lookup (fun row ↦ row.key) k (source.rows t) := by
  have hall : source.extractedEvents t = source.events t :=
    List.filter_eq_self.2 fun e he ↦ decide_eq_true (hextracted e he)
  rw [hall, h.replays]

/-- **Batch Silver is the source, but for rows whose last change is in a transaction that another
one overtook.** Whatever is done to the source, and however the Bronze commits are split into Silver
runs: the row of a key is that of its last change up to the cursor exactly if no change of it up to
there is in a transaction that began later, and is then shown as it is in the source. -/
theorem mirrorsSource_of_run (fns : SparkFunctions) (hjdbc : ∀ t, ReadsAllRows (jdbc t))
    {actions : List CaptureAction} (hrun : Runs.run (step config jdbc) empty actions = some source)
    (t : SilverTable) (clean : SilverColumns t → SilverColumns t)
    {first : List (List (BronzeEvent ℤ (SilverColumns t)))}
    {later : List (List (List (BronzeEvent ℤ (SilverColumns t))))}
    (hsplit : (first :: later).flatten = (source.extraction t).log.map fun c ↦ c.rows) :
    ∃ table, incrementalSilver fns clean first later = some table ∧
      (∀ k, MirrorsSource clean (source.extractedEvents t) table k) ∧
      ((∀ e ∈ source.events t, e.eventId ≤ (bronzeCursor (source.extraction t).log).getD 0) →
        ∀ k, sourceRow (source.extractedEvents t) k =
          MergeInto.lookup (fun row ↦ row.key) k (source.rows t)) := by
  obtain ⟨hcaptured, hsound⟩ := captured_of_run hjdbc hrun t
  have hrows : RowsOf (source.extractedEvents t) (first :: later).flatten.flatten := by
    rw [hsplit]
    exact rowsOf_of_holdsEvents hsound.increasing hsound.holds
  obtain ⟨table, htable, hmirrors⟩ := mirrorsSource fns clean (hsound.increasing.filter _)
    (fun e he ↦ hcaptured.captured e (List.mem_of_mem_filter he)) hrows
  exact ⟨table, htable, hmirrors, sourceRow_extractedEvents hcaptured⟩

/-! ### A transaction that is overtaken -/

/-- A row of a shop. -/
def shopRow (name : Char) : BusinessRow ℤ ShopColumns where
  key := 7
  createdAt := 10
  payload :=
    { publicShopId := none
      shopName := some [name]
      shopSlug := none
      status := none
      updatedAt := some 10 }

/-- A shop is inserted and extracted. Then a transaction that began at 30 renames it, and after that
one that began at 20; both are extracted in one batch. -/
def overtaken : List CaptureAction :=
  [.change .shops (.insert (shopRow 'a')) 1 10] ++ stage ['b'] ++
    [.change .shops (.update (shopRow 'b')) 2 30, .change .shops (.update (shopRow 'c')) 3 20] ++
    stage ['c']
where
  /-- A stage of the shops. -/
  stage (batchId : Text) : List CaptureAction :=
    [.stage (.begin batchId fun t ↦ t = .shops), .stage .readBounds,
      .stage (.materialize .shops), .stage (.finish .shops), .stage .complete]

/-- Silver has the row of the transaction that began last, and so not what the source has. -/
theorem mirrorsSource_of_run_overtaken : ∃ source : CapturedSource,
    Runs.run (step ExtractionWorld.smallPostgres ExtractionWorld.onePartition) empty overtaken =
        some source ∧
      ∃ table, incrementalSilver SparkFunctions.plain id
          (((source.extraction .shops).log.map fun c ↦ c.rows).take 1)
          [((source.extraction .shops).log.map fun c ↦ c.rows).drop 1] = some table ∧
        (∀ k, MirrorsSource id (source.extractedEvents .shops) table k) ∧
        ((∀ e ∈ source.events .shops,
            e.eventId ≤ (bronzeCursor (source.extraction .shops).log).getD 0) →
          ∀ k, sourceRow (source.extractedEvents .shops) k =
            MergeInto.lookup (fun row ↦ row.key) k (source.rows .shops)) := by
  have hjdbc : ∀ t, ReadsAllRows (ExtractionWorld.onePartition t) :=
    fun _ _ _ _ _ _ _ ↦ List.Perm.refl _
  have hrun : (Runs.run (step ExtractionWorld.smallPostgres ExtractionWorld.onePartition) empty
      overtaken).isSome = true := by
    decide +kernel
  obtain ⟨source, hsource⟩ := Option.isSome_iff_exists.1 hrun
  refine ⟨source, hsource, mirrorsSource_of_run SparkFunctions.plain hjdbc hsource .shops id ?_⟩
  rw [List.flatten_cons, List.flatten_singleton, List.take_append_drop]

end CapturedSource

end LakehousePipeline
