import LakehousePipeline.Gold.Scd2Gate
import LakehousePipeline.Silver.HeldEvent

/-!
# Current rows of both levels

Silver and the SCD2 replay both say what a shop or a customer is now, and each elects the event that
decides in an order of its own. Silver compares the columns of the sequence as they come
(`silverEvent`). The replay first moves the times of the Batch events from UTC to the session time
zone, where the times of CDC events are already, then compares eight columns, nulls last
(`replayOrder`), and the row it opens last is the event with which the log entered its last state
(`currentStart`).

## When the levels agree

`currentAgrees_replay_iff` needs nothing: the levels agree exactly if what they elect does. What
that takes of the delivered events is said by two conditions.

* `KeptApart`: nothing takes two different events for one, be it a tie of sequences, an id shared in
  the history or a hash that is the same for other columns (null and the empty text have one).
* `LaterEventsUndone`: an event that the replay puts after the one Silver keeps, because it was
  moved, because a column was null or because Silver never recorded it, leaves the entity as that
  one does, or is followed by an event that does.

Among events kept apart the second is exact (`sameElection_iff`). It holds in a session that moves
no Batch time (`laterEventsUndone_of_unmoved`), and it fails for a Batch and a CDC event less than
the shift apart (`currentAgrees_shifted`).
-/

namespace LakehousePipeline

/-! ### What the levels say -/

section Agreement

variable {P A κ V C : Type}

/-- The Type-2 columns of the current versions of an entity. -/
def currentColumns (type2 : A → C) (dimension : List (Scd2Row A κ V)) (k : ℤ) : List C :=
  ((versionsOf dimension (some k)).filter fun row ↦ row.isCurrent).map fun row ↦
    type2 row.attributes

/-- The Type-2 columns of the row Silver shows of an entity. -/
def shownColumns (type2 : P → C) (rows : List (SilverRow ℤ P)) (k : ℤ) : Option C :=
  (visibleRow rows k).map fun row ↦ type2 row.payload

/-- **The current version agrees with Silver**: there is one exactly if Silver shows the row, and it
has the Type-2 columns of that row. -/
def CurrentAgrees (current : List C) (shown : Option C) : Prop :=
  current = shown.toList

instance [DecidableEq C] (current : List C) (shown : Option C) :
    Decidable (CurrentAgrees current shown) :=
  inferInstanceAs (Decidable (_ = _))

/-- The event with which the log of an entity entered the state it leaves the entity in. -/
def currentStart (events : List (Scd2Event A κ V)) (k : ℤ) : Option (Scd2Event A κ V) :=
  Timeline.lastStart entityState (sortEvents (entityEvents events k))

/-- **The current version is the one the log opened last.** -/
theorem attributes_current (fns : SparkFunctions) (includeUnknown : Bool) (unknown : A)
    (events : List (Scd2Event A κ V)) (k : ℤ) :
    ((versionsOf (withUnknown includeUnknown unknown (replaySingleEntityScd2 fns events))
        (some k)).filter fun row ↦ row.isCurrent).map (fun row ↦ row.attributes) =
      (currentStart events k).toList.map fun s ↦ s.attributes := by
  set log := sortEvents (entityEvents events k) with hlog
  have hrows : (versionsOf (withUnknown includeUnknown unknown (replaySingleEntityScd2 fns events))
      (some k)) = (Timeline.versions entityState log).zipIdx.map fun x ↦
        versionRow fns (x.2 + 1) x.1 := by
    rw [versionsOf_replay, replayPartition_eq_versions fns (log_entityEvents events k).1,
      List.mapIdx_eq_zipIdx_map]
  have hcurrent : ∀ v : Timeline.Version (Scd2Event A κ V), ∀ i,
      (versionRow fns i v).isCurrent = v.closedBy.isNone := by
    intro v i
    show (v.closedBy.map _).isNone = _
    exact Option.isNone_map
  rw [currentStart, ← (Timeline.map_start_openVersions entityState log).1,
    Timeline.openVersions, hrows, List.filter_map, List.map_map, List.map_map]
  conv_rhs => rw [← List.zipIdx_map_fst 0 (Timeline.versions entityState log), List.filter_map,
    List.map_map]
  congr 1
  exact List.filter_congr fun x _ ↦ hcurrent x.1 _

end Agreement

/-! ### The two elections -/

section Election

variable {A κ V C : Type} (fns : SparkFunctions) (clean : Cleaning) {t : SilverTable}

/-- The events of a table as the replay reads them, once all pieces are in its change history. -/
def replayedEvents (event : HistoryRow ℤ (SilverColumns t) → Scd2Event A κ V)
    (pieces : List (SilverPiece ℤ (SilverColumns t))) : List (Scd2Event A κ V) :=
  (changeHistory fns t.name (clean t) (pieces.flatMap SilverPiece.events)).map event

/-- The levels elect alike, as far as the Type-2 columns tell: the event Silver holds, unless it is
a delete, and the one with which the replayed log entered its last state. -/
def SameElection (event : HistoryRow ℤ (SilverColumns t) → Scd2Event A κ V) (columns : A → C)
    (type2 : SilverColumns t → C) (pieces : List (SilverPiece ℤ (SilverColumns t))) (k : ℤ) :
      Prop :=
  ((silverEvent fns k pieces).filter fun e ↦ e.operation ≠ .delete).map
      (fun e ↦ type2 (clean t e.payload)) =
    (currentStart (replayedEvents fns clean event pieces) k).map fun s ↦ columns s.attributes

/-- **The levels agree on an entity exactly if their elections do.** -/
theorem currentAgrees_replay_iff (ht : t.hasChangeHistory = true)
    (event : HistoryRow ℤ (SilverColumns t) → Scd2Event A κ V) (columns : A → C)
    (type2 : SilverColumns t → C) (includeUnknown : Bool) (unknown : A)
    (pieces : List (SilverPiece ℤ (SilverColumns t))) :
    ∃ lake, silverSteps fns clean t .empty pieces = some lake ∧
      ∀ k, CurrentAgrees
          (currentColumns columns (withUnknown includeUnknown unknown
            (replaySingleEntityScd2 fns ((lake.history t).map event))) k)
          (shownColumns type2 (lake.currentRows t) k) ↔
        SameElection fns clean event columns type2 pieces k := by
  obtain ⟨rows, hmerge, hshown⟩ := visibleRow_mergePieces fns (clean t) pieces
  obtain ⟨lake, hsteps, hrows, hhistory⟩ := silverSteps_spec fns clean ht pieces .empty hmerge
  refine ⟨lake, hsteps, fun k ↦ ?_⟩
  have hevents : (lake.history t).map event = replayedEvents fns clean event pieces := by
    rw [hhistory]
    rfl
  have hcurrent := congrArg (List.map columns) (attributes_current fns includeUnknown unknown
    (replayedEvents fns clean event pieces) k)
  rw [List.map_map, List.map_map] at hcurrent
  have hrow := congrArg (Option.map type2) (hshown k)
  rw [Option.map_map, Option.map_map] at hrow
  have hcolumns : currentColumns columns (withUnknown includeUnknown unknown
      (replaySingleEntityScd2 fns (replayedEvents fns clean event pieces))) k =
        ((currentStart (replayedEvents fns clean event pieces) k).map
          fun s ↦ columns s.attributes).toList := by
    rw [Option.toList_map]
    exact hcurrent
  have hsilver : shownColumns type2 rows k =
      ((silverEvent fns k pieces).filter fun e ↦ e.operation ≠ .delete).map
        fun e ↦ type2 (clean t e.payload) := hrow
  rw [hevents, hrows, CurrentAgrees, hcolumns, hsilver, SameElection]
  constructor
  · intro heq
    simpa only [Option.head?_toList] using congrArg List.head? heq.symm
  · intro heq
    rw [heq]

/-! ### What it takes of the events -/

/-- The history row of an event. -/
def historyRow (t : SilverTable) (e : BronzeEvent ℤ (SilverColumns t)) :
    HistoryRow ℤ (SilverColumns t) where
  key := e.key
  createdAt := e.createdAt
  payload := clean t e.payload
  operation := e.operation
  eventOccurredAt := e.eventOccurredAt
  historyEventId := fns.sha256 (concatWs hashSeparator
    [some t.name, some (e.eventId.asText fns), some e.batchId, e.sourceLsn.map fns.castInt,
      e.kafkaPartition.map fns.castInt, e.kafkaOffset.map fns.castInt, some e.operation.name])
  ingestionMode := e.ingestionMode
  order := ⟨some e.ingestionPriority, e.sourceEventSequence, e.sourceEventSubsequence, e.sourceLsn,
    e.kafkaPartition, e.kafkaOffset⟩

/-- What an event leaves of its entity: the Type-2 columns, or nothing. -/
def leaves (type2 : SilverColumns t → C) (e : BronzeEvent ℤ (SilverColumns t)) : Option C :=
  if e.operation = .delete then none else some (type2 (clean t e.payload))

/-- The place of a delivered event in the replay: its time, moved to the session time zone if it
came with a Batch, then the order columns, nulls last, and the history id. -/
def replayOrder (updatedAt : SilverColumns t → Option Timestamp)
    (e : BronzeEvent ℤ (SilverColumns t)) : EventOrder :=
  historyOrder fns updatedAt (historyRow fns clean t e)

/-- The replay's events keep the key, the operation, the Type-2 columns, the id and the order of
their rows. -/
structure IsEventOf (event : HistoryRow ℤ (SilverColumns t) → Scd2Event A κ V) (columns : A → C)
    (type2 : SilverColumns t → C) (updatedAt : SilverColumns t → Option Timestamp) : Prop where
  sourceKey : ∀ row, (event row).sourceKey = some row.key
  operation : ∀ row, (event row).operation = row.operation
  columns : ∀ row, columns (event row).attributes = type2 row.payload
  historyEventId : ∀ row, (event row).historyEventId = row.historyEventId
  order : ∀ row, eventOrder (event row) = historyOrder fns updatedAt row

/-- **Nothing takes two events for one**: copies apart, the delivered events differ wherever a level
tells them by a column that stands for the event. -/
structure KeptApart (event : HistoryRow ℤ (SilverColumns t) → Scd2Event A κ V)
    (type2 : SilverColumns t → C) (pieces : List (SilverPiece ℤ (SilverColumns t))) (k : ℤ) :
      Prop where
  /-- The merge tells events of a key by their sequence. -/
  sequences : DistinctSequences pieces
  /-- The replay drops events by their id in the history. -/
  ids : ∀ e ∈ pieces.flatMap SilverPiece.events, ∀ e' ∈ pieces.flatMap SilverPiece.events,
    (historyRow fns clean t e).historyEventId = (historyRow fns clean t e').historyEventId → e = e'
  /-- It sees a change of the Type-2 columns by their hash. -/
  hashes : ∀ e ∈ eventsOfPieces k pieces, ∀ e' ∈ eventsOfPieces k pieces,
    (event (historyRow fns clean t e)).attributeHash =
        (event (historyRow fns clean t e')).attributeHash →
      type2 (clean t e.payload) = type2 (clean t e'.payload)

/-- **What the replay puts after the event Silver keeps comes to nothing.** -/
structure LaterEventsUndone (updatedAt : SilverColumns t → Option Timestamp)
    (type2 : SilverColumns t → C) (pieces : List (SilverPiece ℤ (SilverColumns t))) (k : ℤ) :
      Prop where
  /-- An event the replay puts after the newest recorded one leaves the entity as that one does, or
  a later one does so. -/
  kept : ∀ e, IsRecordedNewest k pieces e → ∀ x ∈ eventsOfPieces k pieces,
    replayOrder fns clean updatedAt e < replayOrder fns clean updatedAt x →
      ∃ y ∈ eventsOfPieces k pieces,
        replayOrder fns clean updatedAt x ≤ replayOrder fns clean updatedAt y ∧
          leaves clean type2 y = leaves clean type2 e
  /-- If all events are orphan deletes to Silver, the replay ends with a delete too. -/
  orphans : (∀ e, ¬IsRecordedNewest k pieces e) → ∀ x ∈ eventsOfPieces k pieces,
    ∃ y ∈ eventsOfPieces k pieces,
      replayOrder fns clean updatedAt x ≤ replayOrder fns clean updatedAt y ∧
        y.operation = .delete

variable {event : HistoryRow ℤ (SilverColumns t) → Scd2Event A κ V} {columns : A → C}
  {type2 : SilverColumns t → C} {updatedAt : SilverColumns t → Option Timestamp}
  {pieces : List (SilverPiece ℤ (SilverColumns t))} {k : ℤ}

theorem leaves_eq_none_iff {e : BronzeEvent ℤ (SilverColumns t)} :
    leaves clean type2 e = none ↔ e.operation = .delete := by
  rw [leaves]
  split_ifs with h <;> simp [h]

/-- Events with one place in the replay are copies. -/
theorem KeptApart.eq_of_replayOrder_eq (hapart : KeptApart fns clean event type2 pieces k)
    {e e' : BronzeEvent ℤ (SilverColumns t)} (he : e ∈ eventsOfPieces k pieces)
    (he' : e' ∈ eventsOfPieces k pieces)
    (h : replayOrder fns clean updatedAt e = replayOrder fns clean updatedAt e') : e = e' := by
  obtain ⟨piece, hpiece, hin, -⟩ := mem_eventsOfPieces.1 he
  obtain ⟨piece', hpiece', hin', -⟩ := mem_eventsOfPieces.1 he'
  refine hapart.ids e (List.mem_flatMap.2 ⟨piece, hpiece, hin⟩) e'
    (List.mem_flatMap.2 ⟨piece', hpiece', hin'⟩) ?_
  -- the id is the last order column
  exact congrArg (fun p : EventOrder ↦ (ofLex (ofLex p).2).2) h

theorem mem_replayedEvents {x : Scd2Event A κ V} :
    x ∈ replayedEvents fns clean event pieces ↔
      ∃ e ∈ pieces.flatMap SilverPiece.events, event (historyRow fns clean t e) = x := by
  rw [replayedEvents, changeHistory, List.map_map, List.mem_map]
  rfl

/-- The log of an entity holds its events. -/
theorem mem_entityEvents (hevent : IsEventOf fns event columns type2 updatedAt)
    (hapart : KeptApart fns clean event type2 pieces k) {x : Scd2Event A κ V} :
    x ∈ entityEvents (replayedEvents fns clean event pieces) k ↔
      ∃ e ∈ eventsOfPieces k pieces, event (historyRow fns clean t e) = x := by
  have hcopies : ∀ x ∈ (replayedEvents fns clean event pieces).filter (fun e ↦ e.sourceKey.isSome),
      ∀ y ∈ (replayedEvents fns clean event pieces).filter (fun e ↦ e.sourceKey.isSome),
        x.historyEventId = y.historyEventId → x = y := by
    intro x hx y hy hid
    obtain ⟨e, he, rfl⟩ := (mem_replayedEvents fns clean).1 (List.mem_filter.1 hx).1
    obtain ⟨e', he', rfl⟩ := (mem_replayedEvents fns clean).1 (List.mem_filter.1 hy).1
    rw [hevent.historyEventId, hevent.historyEventId] at hid
    rw [hapart.ids e he e' he' hid]
  rw [entityEvents, List.mem_filter, Relational.mem_dropDuplicatesOn_iff hcopies, List.mem_filter,
    mem_replayedEvents]
  constructor
  · rintro ⟨⟨⟨e, he, rfl⟩, -⟩, hk⟩
    refine ⟨e, ?_, rfl⟩
    obtain ⟨piece, hpiece, hin⟩ := List.mem_flatMap.1 he
    refine mem_eventsOfPieces.2 ⟨piece, hpiece, hin, ?_⟩
    have hkey := of_decide_eq_true hk
    rw [hevent.sourceKey] at hkey
    exact Option.some.inj hkey
  · rintro ⟨e, he, rfl⟩
    obtain ⟨piece, hpiece, hin, hk⟩ := mem_eventsOfPieces.1 he
    have hkey : (event (historyRow fns clean t e)).sourceKey = some k := by
      rw [hevent.sourceKey]
      exact congrArg some hk
    exact ⟨⟨⟨e, List.mem_flatMap.2 ⟨piece, hpiece, hin⟩, rfl⟩, by rw [hkey]; rfl⟩,
      decide_eq_true hkey⟩

variable (updatedAt) in
/-- Some event is the last one of the replay. -/
theorem exists_last (hne : eventsOfPieces k pieces ≠ []) :
    ∃ y ∈ eventsOfPieces k pieces, ∀ x ∈ eventsOfPieces k pieces,
      replayOrder fns clean updatedAt x ≤ replayOrder fns clean updatedAt y := by
  obtain ⟨x, hx⟩ := List.exists_mem_of_ne_nil _ hne
  obtain ⟨y, hy⟩ := LastWriterWins.exists_newest_of_mem (replayOrder fns clean updatedAt) hx
  obtain ⟨hmem, hmax⟩ := LastWriterWins.isNewest_of_newest hy
  exact ⟨y, hmem, hmax⟩

/-- **The current version shows what the last event leaves**: the version may have begun with an
earlier event, but with one of the same hash. -/
theorem currentStart_of_last (hevent : IsEventOf fns event columns type2 updatedAt)
    (hapart : KeptApart fns clean event type2 pieces k) {y : BronzeEvent ℤ (SilverColumns t)}
    (hy : y ∈ eventsOfPieces k pieces) (hmax : ∀ x ∈ eventsOfPieces k pieces,
      replayOrder fns clean updatedAt x ≤ replayOrder fns clean updatedAt y) :
    (currentStart (replayedEvents fns clean event pieces) k).map (fun s ↦ columns s.attributes) =
      leaves clean type2 y := by
  have hmem := fun x ↦ mem_entityEvents fns clean hevent hapart (x := x)
  have hlast : (sortEvents (entityEvents (replayedEvents fns clean event pieces) k)).getLast? =
      some (event (historyRow fns clean t y)) := by
    refine Timeline.getLast?_eq_some_of_max (log_entityEvents _ k).2
      (mem_sortEvents.2 ((hmem _).2 ⟨y, hy, rfl⟩)) fun z hz ↦ ?_
    obtain ⟨x, hx, rfl⟩ := (hmem z).1 (mem_sortEvents.1 hz)
    rw [hevent.order, hevent.order]
    exact hmax x hx
  have hstate : Timeline.lastState entityState none
      (sortEvents (entityEvents (replayedEvents fns clean event pieces) k)) =
        entityState (event (historyRow fns clean t y)) := by
    rw [Timeline.lastState, hlast]
    rfl
  have hop : (event (historyRow fns clean t y)).operation = y.operation := hevent.operation _
  by_cases hdel : y.operation = .delete
  · rw [currentStart, Timeline.lastStart_eq_none_iff.2
      (hstate.trans (entityState_eq_none.2 (hop.trans hdel))), (leaves_eq_none_iff clean).2 hdel]
    rfl
  · obtain ⟨s, hs⟩ : ∃ s, Timeline.lastStart entityState
        (sortEvents (entityEvents (replayedEvents fns clean event pieces) k)) = some s := by
      refine Option.ne_none_iff_exists'.1 fun hnone ↦ hdel ?_
      rw [Timeline.lastStart_eq_none_iff, hstate, entityState_eq_none, hop] at hnone
      exact hnone
    obtain ⟨hin, hsame⟩ := Timeline.state_of_lastStart hs
    rw [hstate, entityState_of_ne
      (hop ▸ hdel : (event (historyRow fns clean t y)).operation ≠ .delete)] at hsame
    have hsop : s.operation ≠ .delete := fun hd ↦ by
      rw [entityState_eq_none.2 hd] at hsame
      cases hsame
    rw [entityState_of_ne hsop] at hsame
    obtain ⟨x, hx, rfl⟩ := (hmem s).1 (mem_sortEvents.1 hin)
    rw [currentStart, hs, leaves, if_neg hdel, Option.map_some, hevent.columns]
    exact congrArg some (hapart.hashes x hx y hy (Option.some.inj hsame))

/-- What Silver elects, as what its event leaves. -/
theorem map_filter_silverEvent :
    ((silverEvent fns k pieces).filter fun e ↦ e.operation ≠ .delete).map
        (fun e ↦ type2 (clean t e.payload)) =
      (silverEvent fns k pieces).bind (leaves clean type2) := by
  rcases silverEvent fns k pieces with - | e
  · rfl
  · rw [Option.filter_some, Option.bind_some, leaves]
    by_cases hdel : e.operation = .delete <;> simp [hdel]

/-- **Both levels elect alike exactly if what the replay puts after Silver's event is undone.** -/
theorem sameElection_iff (hevent : IsEventOf fns event columns type2 updatedAt)
    (hapart : KeptApart fns clean event type2 pieces k) :
    SameElection fns clean event columns type2 pieces k ↔
      LaterEventsUndone fns clean updatedAt type2 pieces k := by
  have hrecorded := fun e ↦ silverEvent_eq_some_iff fns hapart.sequences (k := k) (e := e)
  have hdelivered : ∀ e, IsRecordedNewest k pieces e → e ∈ eventsOfPieces k pieces := by
    intro e he
    obtain ⟨piece, hpiece, hin⟩ := mem_eventsOfPieces.1 he.1
    exact mem_eventsOfPieces.2 ⟨piece, (List.dropWhile_sublist _).subset hpiece, hin⟩
  rw [SameElection, map_filter_silverEvent]
  by_cases hnil : eventsOfPieces k pieces = []
  · -- an entity without events has no row on either level
    have hsilver : silverEvent fns k pieces = none := by
      refine Option.eq_none_iff_forall_ne_some.2 fun e he ↦ ?_
      have hmem := hdelivered e ((hrecorded e).1 he)
      rw [hnil] at hmem
      cases hmem
    have hlog : sortEvents (entityEvents (replayedEvents fns clean event pieces) k) = [] := by
      refine List.eq_nil_iff_forall_not_mem.2 fun x hx ↦ ?_
      obtain ⟨e, he, -⟩ := (mem_entityEvents fns clean hevent hapart).1 (mem_sortEvents.1 hx)
      rw [hnil] at he
      cases he
    rw [hsilver, currentStart, hlog]
    refine iff_of_true rfl ⟨fun _ _ x hx ↦ ?_, fun _ x hx ↦ ?_⟩ <;>
    · rw [hnil] at hx
      cases hx
  · -- the replay ends with the last event by time, sequence and row id
    obtain ⟨last, hlast, hmax⟩ := exists_last fns clean updatedAt hnil
    rw [currentStart_of_last fns clean hevent hapart hlast hmax]
    rcases hsilver : silverEvent fns k pieces with - | e
    · -- orphan deletes alone leave no row in Silver
      have hno : ∀ e, ¬IsRecordedNewest k pieces e := fun e he ↦ by
        rw [(hrecorded e).2 he] at hsilver
        cases hsilver
      rw [Option.bind_none, eq_comm, leaves_eq_none_iff]
      constructor
      · exact fun hdel ↦ ⟨fun e he ↦ absurd he (hno e), fun _ x hx ↦ ⟨last, hlast, hmax x hx, hdel⟩⟩
      · intro hundone
        obtain ⟨y, hy, hle, hdel⟩ := hundone.orphans hno last hlast
        rwa [hapart.eq_of_replayOrder_eq fns clean hlast hy (hle.antisymm (hmax y hy))]
    · have he := (hrecorded e).1 hsilver
      have hmem := hdelivered e he
      rw [Option.bind_some]
      constructor
      · intro halike
        refine ⟨fun e' he' x hx _ ↦ ⟨last, hlast, hmax x hx, ?_⟩, fun hno ↦ absurd he (hno e)⟩
        have heq := ((hrecorded e').2 he').symm.trans hsilver
        rw [Option.some.inj heq, halike]
      · intro hundone
        -- Silver keeps an earlier event than the replay ends with, or the same
        rcases (hmax e hmem).lt_or_eq with hlt | heq
        · obtain ⟨y, hy, hle, halike⟩ := hundone.kept e he last hlast hlt
          rw [hapart.eq_of_replayOrder_eq fns clean hlast hy (hle.antisymm (hmax y hy)), halike]
        · rw [hapart.eq_of_replayOrder_eq fns clean hmem hlast heq]

/-! ### A session that moves no Batch time -/

/-- An event without a null in the sequence columns, whose time the session zone does not move. -/
structure Unmoved (e : BronzeEvent ℤ (SilverColumns t)) : Prop where
  full : none ∉ e.sequenceColumns
  time : e.ingestionMode = .batch → ∀ time ∈ e.eventOccurredAt, fns.fromUtcTimestamp time = time

variable (updatedAt) in
theorem Unmoved.spec {e : BronzeEvent ℤ (SilverColumns t)} (he : Unmoved fns e) :
    ∃ time sequence subsequence : ℤ,
      e.sequence = [↑time, ↑e.ingestionPriority, ↑sequence, ↑subsequence] ∧
        ∃ rest id, replayOrder fns clean updatedAt e = toLex (time,
          toLex (toLex (↑e.ingestionPriority, toLex (↑sequence, toLex (↑subsequence, rest))),
            id)) := by
  have hfull := he.full
  rw [BronzeEvent.sequenceColumns] at hfull
  simp only [List.mem_cons, List.not_mem_nil, not_or] at hfull
  obtain ⟨htime, -, hsequence, hsubsequence, -⟩ := hfull
  obtain ⟨time, htime⟩ := Option.ne_none_iff_exists'.1 (Ne.symm htime)
  obtain ⟨sequence, hsequence⟩ := Option.ne_none_iff_exists'.1 (Ne.symm hsequence)
  obtain ⟨subsequence, hsubsequence⟩ := Option.ne_none_iff_exists'.1 (Ne.symm hsubsequence)
  have hnormal : (historyRow fns clean t e).normalizedOccurredAt fns = some time := by
    show (if e.ingestionMode = .batch then e.eventOccurredAt.map fns.fromUtcTimestamp
      else e.eventOccurredAt) = some time
    rw [htime]
    split_ifs with hbatch
    · rw [Option.map_some, he.time hbatch time htime]
    · rfl
  refine ⟨time, sequence, subsequence, ?_, toLex (ascNullsLast e.sourceLsn,
    toLex (ascNullsLast e.kafkaPartition, ascNullsLast e.kafkaOffset)),
    (historyRow fns clean t e).historyEventId, ?_⟩
  · rw [BronzeEvent.sequence, BronzeEvent.sequenceColumns, htime, hsequence, hsubsequence]
    rfl
  · rw [replayOrder, historyOrder, HistoryRow.eventTime, hnormal]
    show toLex (_, toLex (toLex (_, toLex (ascNullsLast e.sourceEventSequence,
      toLex (ascNullsLast e.sourceEventSubsequence, _))), _)) = _
    rw [hsequence, hsubsequence]
    rfl

/-- What is newer to Silver is later to the replay, if neither event is moved. -/
theorem replayOrder_lt_of_sequence_lt {e e' : BronzeEvent ℤ (SilverColumns t)}
    (he : Unmoved fns e) (he' : Unmoved fns e') (hlt : e.sequence < e'.sequence) :
    replayOrder fns clean updatedAt e < replayOrder fns clean updatedAt e' := by
  obtain ⟨time, sequence, subsequence, hseq, rest, id, horder⟩ := he.spec fns clean updatedAt
  obtain ⟨time', sequence', subsequence', hseq', rest', id', horder'⟩ :=
    he'.spec fns clean updatedAt
  rw [hseq, hseq'] at hlt
  simp only [List.cons_lt_cons_iff, WithBot.coe_lt_coe, WithBot.coe_inj, List.not_lt_nil, and_false,
    or_false] at hlt
  rw [horder, horder']
  simp only [Prod.Lex.toLex_lt_toLex, WithTop.coe_lt_coe, WithTop.coe_inj]
  rcases hlt with hlt | ⟨heq, hlt | ⟨heq₁, hlt | ⟨heq₂, hlt⟩⟩⟩
  · exact Or.inl hlt
  · exact Or.inr ⟨heq, Or.inl (Or.inl hlt)⟩
  · exact Or.inr ⟨heq, Or.inl (Or.inr ⟨heq₁, Or.inl hlt⟩)⟩
  · exact Or.inr ⟨heq, Or.inl (Or.inr ⟨heq₁, Or.inr ⟨heq₂, Or.inl hlt⟩⟩)⟩

/-- **Without the shift nothing comes after the newest event**, if it is recorded and no sequence
column is null. -/
theorem laterEventsUndone_of_unmoved (hsequences : DistinctSequences pieces)
    (hrecorded : ∀ e, IsNewestOf k pieces e → IsRecordedNewest k pieces e)
    (hunmoved : ∀ e ∈ eventsOfPieces k pieces, Unmoved fns e) :
    LaterEventsUndone fns clean updatedAt type2 pieces k := by
  have hnewest : ∀ x ∈ eventsOfPieces k pieces, ∃ e, IsNewestOf k pieces e := by
    intro x hx
    obtain ⟨e, he⟩ := LastWriterWins.exists_newest_of_mem (fun e ↦ e.sequence) hx
    exact ⟨e, LastWriterWins.isNewest_of_newest he⟩
  refine ⟨fun e he x hx hlt ↦ ?_, fun hno x hx ↦ ?_⟩
  · obtain ⟨e', he'⟩ := hnewest x hx
    have heq : e = e' := Option.some.inj (((silverEvent_eq_some_iff fns hsequences).2 he).symm.trans
      ((silverEvent_eq_some_iff fns hsequences).2 (hrecorded e' he')))
    rw [← heq] at he'
    rcases (he'.2 x hx).lt_or_eq with hless | hsame
    · exact absurd hlt (replayOrder_lt_of_sequence_lt fns clean (hunmoved x hx)
        (hunmoved e he'.1) hless).not_gt
    · rw [hsequences.stampsIdentify k x hx e he'.1 hsame] at hlt
      exact absurd hlt (lt_irrefl _)
  · obtain ⟨e, he⟩ := hnewest x hx
    exact absurd (hrecorded e he) (hno e)

end Election

/-! ### Shops and customers -/

/-- The Type-2 columns of `shops`. -/
def ShopColumns.type2 (columns : ShopColumns) : List (Option Text) :=
  [columns.publicShopId, columns.shopName, columns.shopSlug, columns.status]

/-- The Type-2 columns of `dim_shop`. -/
def ShopAttributes.type2 (attributes : ShopAttributes) : List (Option Text) :=
  [attributes.publicShopId, attributes.shopName, attributes.shopSlug, attributes.shopStatus]

/-- The Type-2 columns of `app_users`. -/
def UserColumns.type2 (columns : UserColumns) : List (Option Text) :=
  [columns.username, columns.email, columns.firstName, columns.lastName, columns.phoneNumber,
    columns.status]

/-- The Type-2 columns of `dim_customer`. -/
def CustomerAttributes.type2 (attributes : CustomerAttributes) : List (Option Text) :=
  [attributes.username, attributes.email, attributes.firstName, attributes.lastName,
    attributes.phoneNumber, attributes.customerStatus]

theorem isEventOf_shopEvent (fns : SparkFunctions) :
    IsEventOf (t := .shops) fns (shopEvent fns) ShopAttributes.type2 ShopColumns.type2
      ShopColumns.updatedAt where
  sourceKey _ := rfl
  operation _ := rfl
  columns _ := rfl
  historyEventId _ := rfl
  order _ := rfl

theorem isEventOf_customerEvent (fns : SparkFunctions) :
    IsEventOf (t := .appUsers) fns (customerEvent fns) CustomerAttributes.type2
      UserColumns.type2 UserColumns.updatedAt where
  sourceKey _ := rfl
  operation _ := rfl
  columns _ := rfl
  historyEventId _ := rfl
  order _ := rfl

/-- A session in a zone seven hours ahead of UTC. -/
def sevenHoursAhead : SparkFunctions :=
  { SparkFunctions.plain with fromUtcTimestamp := fun t ↦ t + 25200000000 }

/-- The name of shop 7 after an event. -/
def namedShop (name : Char) : ShopColumns where
  publicShopId := none
  shopName := some [name]
  shopSlug := none
  status := none
  updatedAt := none

/-- Shop 7 is renamed at five in the morning, and CDC says so in local time. -/
def renamedByCdc : BronzeEvent ℤ ShopColumns where
  key := 7
  createdAt := 0
  payload := namedShop 'c'
  operation := .update
  eventOccurredAt := some 18000000000
  eventId := .text ['x']
  batchId := ['c']
  isStreamingCdc := true
  sourceLsn := some 5
  kafkaPartition := some 0
  kafkaOffset := some 3

/-- Two hours later it is renamed again, and a Batch increment says so in UTC: at midnight. -/
def renamedByBatch : BronzeEvent ℤ ShopColumns where
  key := 7
  createdAt := 0
  payload := namedShop 'b'
  operation := .update
  eventOccurredAt := some 0
  eventId := .number 1
  batchId := ['b']
  isStreamingCdc := false
  sourceLsn := none
  kafkaPartition := none
  kafkaOffset := none

end LakehousePipeline
