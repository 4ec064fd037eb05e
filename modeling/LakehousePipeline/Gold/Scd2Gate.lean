import LakehousePipeline.Gold.FactJoins
import LakehousePipeline.Gold.Quality
import LakehousePipeline.Gold.Scd2AsOf

/-!
# The SCD2 gate and the replay

The replay cuts an entity's events into versions that follow one another, of which at most one is
current, and one is deleted if none is. So the gate never objects to the number of current versions,
and to an overlap only after it has objected to a range. What it can object to is an empty range,
and the replay produces one whenever a version is closed at the instant it begins: two changes of a
row in one transaction, an insert and a delete in one transaction, any change at the time of a seed.
The first version escapes only when the row was created before.

`VersionsLast` says, in the events of one entity, that this does not happen
(`scd2Gate_iff`).

## Gate and replay, member by member

Both work on the versions of one member. For the gate, `scd2Violation_eq_none_iff` says what is left
of its checks where the versions follow one another (`ConsecutiveVersions`): a range that is not
empty. For the replay, `versionsOf_replay` says that the versions of a member are the replay of its
events, and `consecutiveVersions_replayPartition` that these follow one another, whatever the events
are. The two meet in `range_replayPartition_iff`, where an empty range of a row becomes a version
that is closed by the time it has begun.

`VersionsLast` is stated with the events that start and close versions (`IsVersionStart`,
`IsClosingEvent`) and not with rows. When a version has begun is a matter of its event, unless it is
the first: that one is pulled back to the creation of the entity, and lasts if this is earlier.

The gate asks that versions do not overlap, but accepts only what is stronger. That versions of one
member cover no instant together holds of every replay (`disjointVersions_replay`), and is what the
joins of `fact_sales` use.
-/

namespace LakehousePipeline

variable {A κ V : Type}

/-! ### The history in its own terms -/

/-- The events of one entity, as the replay reads them. -/
def entityEvents (events : List (Scd2Event A κ V)) (k : ℤ) : List (Scd2Event A κ V) :=
  (Relational.dropDuplicatesOn (fun e ↦ e.historyEventId)
    (events.filter fun e ↦ e.sourceKey.isSome)).filter fun e ↦ e.sourceKey = some k

/-- **Every version lasts**: what closes it happens after it has begun. -/
structure VersionsLast (events : List (Scd2Event A κ V)) : Prop where
  /-- A version that is closed. -/
  closed : ∀ s c, IsVersionStart events s → IsClosingEvent events s c →
    versionBegin events s < c.eventTime
  /-- The current version. -/
  current : ∀ s, IsVersionStart events s → (∀ c, ¬IsClosingEvent events s c) →
    versionBegin events s < openEndedEffectiveTo

/-- An entity that never changes twice at one time has versions that last. -/
theorem versionsLast_of_distinct_times {events : List (Scd2Event A κ V)}
    (hdistinct : ∀ a ∈ events, ∀ b ∈ events, eventOrder a < eventOrder b →
      a.eventTime ≠ b.eventTime)
    (hopen : ∀ e ∈ events, e.eventTime < openEndedEffectiveTo) : VersionsLast events := by
  have hbegin : ∀ s, versionBegin events s ≤ s.eventTime := by
    intro s
    rw [versionBegin]
    split_ifs
    · exact le_rfl
    · exact le_rfl
    · exact leastOf_le _ _
  refine ⟨fun s c hs hc ↦ ?_, fun s hs _ ↦ (hbegin s).trans_lt (hopen s hs.1)⟩
  have hle : s.eventTime ≤ c.eventTime := eventTime_le_of_eventOrder_le hc.2.1.le
  exact (hbegin s).trans_lt (hle.lt_of_ne (hdistinct s hs.1 c hc.1 hc.2.1))

/-! ### The rows of one entity -/

/-- Versions of one member that follow one another, of which at most one is current, and one is
deleted if none is. -/
structure ConsecutiveVersions (versions : List (Scd2Row A κ V)) : Prop where
  follow : versions.Pairwise fun v w ↦ v.effectiveTo ≤ w.effectiveFrom
  current : (versions.filter fun v ↦ v.isCurrent).length ≤ 1
  deleted : versions ≠ [] → (versions.filter fun v ↦ v.isCurrent) = [] →
    ∃ v ∈ versions, v.isDeleted = true

section Entity

variable (fns : SparkFunctions) {log : List (Scd2Event A κ V)}

/-- The rows of an entity follow one another. -/
theorem consecutiveVersions_replayPartition
    (hids : (log.map fun e ↦ e.historyEventId).Nodup)
    (hsorted : log.Pairwise fun a b ↦ eventOrder a < eventOrder b) :
    ConsecutiveVersions (replayPartition fns log) := by
  rw [replayPartition_eq_versions fns hids]
  have htimes : log.Pairwise fun a b ↦ a.eventTime ≤ b.eventTime :=
    hsorted.imp fun h ↦ eventTime_le_of_eventOrder_le h.le
  have hfollow : (Timeline.versions entityState log).Pairwise fun v w ↦
      ∃ c, v.closedBy = some c ∧ c.eventTime ≤ w.start.eventTime :=
    Timeline.versionsFrom_consecutive htimes none
  obtain ⟨hnone, hone⟩ := Timeline.open_versions_eq entityState log
  have hselect := filter_isCurrent_rows fns (Timeline.versions entityState log)
  refine ⟨?_, ?_, fun hne hcurrent ↦ ?_⟩
  · -- a version is closed by an event no later than the next one's start
    rw [List.pairwise_iff_getElem]
    intro i j hi hj hij
    rw [List.length_mapIdx] at hi hj
    obtain ⟨c, hc, hle⟩ := List.pairwise_iff_getElem.1 hfollow i j hi hj hij
    rw [List.getElem_mapIdx, List.getElem_mapIdx]
    show ((Timeline.versions entityState log)[i].closedBy.map fun e ↦ e.eventTime).getD
        openEndedEffectiveTo ≤
      effectiveFrom (Timeline.versions entityState log)[j].start (j + 1)
    rw [effectiveFrom_of_ne_one _ (by omega),
      show (Timeline.versions entityState log)[i].closedBy = some c from hc]
    exact hle
  · by_cases hlast : Timeline.lastState entityState none log = none
    · rw [hselect.1 (hnone hlast)]
      exact Nat.zero_le 1
    · obtain ⟨v, hv, -⟩ := hone hlast
      obtain ⟨i, hrow⟩ := hselect.2 v hv
      rw [hrow]
      exact le_rfl
  · -- the last event ended the entity, and with it a version
    have hlast : Timeline.lastState entityState none log = none := by
      by_contra hsome
      obtain ⟨v, hv, -⟩ := hone hsome
      obtain ⟨i, hrow⟩ := hselect.2 v hv
      rw [hcurrent] at hrow
      cases hrow
    have hversions : Timeline.versions entityState log ≠ [] := by
      intro hnil
      rw [hnil] at hne
      exact hne rfl
    -- the event that closes it is the delete, which the version records
    obtain ⟨v, hv, c, hc, hend⟩ := Timeline.exists_closedBy_end hlast hversions
    obtain ⟨i, hi, rfl⟩ := List.getElem_of_mem hv
    refine ⟨_, List.mem_mapIdx.2 ⟨i, hi, rfl⟩, ?_⟩
    show decide (((Timeline.versionsFrom entityState none log)[i].closedBy.map
      fun e ↦ e.operation) = some .delete) = true
    rw [hc]
    simpa using hend

/-- **The ranges of an entity's rows are not empty exactly if its versions last.** -/
theorem range_replayPartition_iff {events : List (Scd2Event A κ V)}
    (hmem : ∀ e, e ∈ log ↔ e ∈ events) (hids : (log.map fun e ↦ e.historyEventId).Nodup)
    (hsorted : log.Pairwise fun a b ↦ eventOrder a < eventOrder b) :
    (∀ row ∈ replayPartition fns log, row.effectiveFrom < row.effectiveTo) ↔
      VersionsLast events := by
  have hstart := isVersionStart_iff hmem hsorted
  have hclosing : ∀ v ∈ Timeline.versions entityState log, ∀ c,
      IsClosingEvent events v.start c ↔ v.closedBy = some c := fun v hv ↦
    isClosingEvent_iff hmem hsorted hv
  -- a row has the bounds of its version, open ended while nothing closes it
  have hrows : (∀ row ∈ replayPartition fns log, row.effectiveFrom < row.effectiveTo) ↔
      ∀ v ∈ Timeline.versions entityState log, versionBegin events v.start <
        (v.closedBy.map fun e ↦ e.eventTime).getD openEndedEffectiveTo := by
    rw [replayPartition_eq_versions fns hids]
    constructor
    · intro hall v hv
      obtain ⟨i, hi, rfl⟩ := List.getElem_of_mem hv
      rw [← effectiveFrom_eq_versionBegin hmem hsorted (List.getElem?_eq_getElem hi)]
      exact hall _ (List.mem_mapIdx.2 ⟨i, hi, rfl⟩)
    · intro hall row hrow
      obtain ⟨i, hi, rfl⟩ := List.mem_mapIdx.1 hrow
      have hv := hall _ (List.getElem_mem hi)
      rw [← effectiveFrom_eq_versionBegin hmem hsorted (List.getElem?_eq_getElem hi)] at hv
      exact hv
  rw [hrows]
  constructor
  · intro hall
    refine ⟨fun s c hs hc ↦ ?_, fun s hs hno ↦ ?_⟩
    · obtain ⟨v, hv, rfl⟩ := List.mem_map.1 ((hstart s).1 hs)
      have hlt := hall v hv
      rwa [(hclosing v hv c).1 hc] at hlt
    · obtain ⟨v, hv, rfl⟩ := List.mem_map.1 ((hstart s).1 hs)
      have hlt := hall v hv
      have hopen : v.closedBy = none :=
        Option.eq_none_iff_forall_ne_some.2 fun c hc ↦ hno c ((hclosing v hv c).2 hc)
      rwa [hopen] at hlt
  · intro hlast v hv
    have hs : IsVersionStart events v.start := (hstart _).2 (List.mem_map_of_mem hv)
    rcases hc : v.closedBy with - | c
    · exact hlast.current _ hs fun c hclose ↦ by
        rw [hclosing v hv, hc] at hclose
        cases hclose
    · exact hlast.closed _ c hs ((hclosing v hv c).2 hc)

end Entity

/-! ### The gate over one dimension -/

section Gate

/-- The current versions of a member never violate the gate. -/
theorem hasInvalidCurrent_eq_false {dimension : List (Scd2Row A κ V)} {member : Option ℤ}
    (h : ConsecutiveVersions (versionsOf dimension member))
    (hne : versionsOf dimension member ≠ []) : hasInvalidCurrent dimension member = false := by
  rw [hasInvalidCurrent, Bool.or_eq_false_iff, Bool.and_eq_false_iff]
  refine ⟨decide_eq_false (not_lt.2 h.current), ?_⟩
  by_cases hcurrent : ((versionsOf dimension member).filter fun v ↦ v.isCurrent) = []
  · obtain ⟨v, hv, hdeleted⟩ := h.deleted hne hcurrent
    refine Or.inr ?_
    rw [Bool.not_eq_false', List.any_eq_true]
    exact ⟨v, hv, hdeleted⟩
  · exact Or.inl (decide_eq_false fun hzero ↦ hcurrent (List.length_eq_zero_iff.1 hzero))

/-- Versions that follow one another overlap only if one of them is empty. -/
theorem hasOverlap_eq_false {dimension : List (Scd2Row A κ V)}
    (h : ∀ k, ConsecutiveVersions (versionsOf dimension (some k)))
    (hrange : ∀ v ∈ knownVersions dimension, v.effectiveFrom < v.effectiveTo) :
    hasOverlap dimension = false := by
  rw [hasOverlap, List.any_eq_false]
  intro y hy
  obtain ⟨x, hx, before, v, after, hsort, rfl⟩ := (Window.mem_overPartition _ _).1 hy
  obtain ⟨k, hk⟩ := Option.isSome_iff_exists.1 (mem_knownVersions.1 hx).2
  rw [hk] at hsort
  -- the versions of the member stand in the order of their starts already
  have hsorted : (versionsOf dimension (some k)).Pairwise fun v w ↦
      (toLex (v.effectiveFrom, v.surrogateKey) : ℤ ×ₗ ℤ) ≤
        toLex (w.effectiveFrom, w.surrogateKey) := by
    refine (h k).follow.imp_of_mem fun {v w} hv _ hle ↦ Prod.Lex.toLex_le_toLex.2 (Or.inl ?_)
    exact (hrange v (List.mem_filter.1 hv).1).trans_le hle
  have hsplit : versionsOf dimension (some k) = before ++ v :: after :=
    hsorted.insertionSort_eq.symm.trans hsort
  have hfollow := (List.pairwise_append.1 (hsplit ▸ (h k).follow)).2.2
  rcases hlast : before.getLast? with - | previous
  · simp
  · have hle := hfollow previous (List.mem_of_getLast? hlast) v List.mem_cons_self
    simpa using hle

/-- **The gate accepts versions that follow one another exactly if none of them is empty.** -/
theorem scd2Violation_eq_none_iff {dimension : List (Scd2Row A κ V)}
    (h : ∀ k, ConsecutiveVersions (versionsOf dimension (some k))) :
    scd2Violation dimension = none ↔
      ∀ v ∈ knownVersions dimension, v.effectiveFrom < v.effectiveTo := by
  have hcurrent : ¬((knownVersions dimension).map fun v ↦ v.sourceKey).any
      (hasInvalidCurrent dimension) = true := by
    rw [List.any_eq_true]
    rintro ⟨member, hmember, hinvalid⟩
    obtain ⟨v, hv, rfl⟩ := List.mem_map.1 hmember
    obtain ⟨k, hk⟩ := Option.isSome_iff_exists.1 (mem_knownVersions.1 hv).2
    have hne : versionsOf dimension v.sourceKey ≠ [] :=
      List.ne_nil_of_mem (List.mem_filter.2 ⟨hv, decide_eq_true rfl⟩)
    have hversions : ConsecutiveVersions (versionsOf dimension v.sourceKey) := by
      rw [hk]
      exact h k
    rw [hasInvalidCurrent_eq_false hversions hne] at hinvalid
    cases hinvalid
  rw [scd2Violation, if_neg hcurrent]
  by_cases hrange : ∀ v ∈ knownVersions dimension, v.effectiveFrom < v.effectiveTo
  · have hnone : ¬(knownVersions dimension).any
        (fun v ↦ decide (v.effectiveTo ≤ v.effectiveFrom)) = true := by
      rw [List.any_eq_true]
      rintro ⟨v, hv, hle⟩
      exact absurd (of_decide_eq_true hle) (not_le.2 (hrange v hv))
    rw [if_neg hnone, if_neg (Bool.eq_false_iff.1 (hasOverlap_eq_false h hrange))]
    exact iff_of_true rfl hrange
  · refine iff_of_false ?_ hrange
    have hsome : (knownVersions dimension).any
        (fun v ↦ decide (v.effectiveTo ≤ v.effectiveFrom)) = true := by
      by_contra hnone
      refine hrange fun v hv ↦ not_le.1 fun hle ↦ hnone (List.any_eq_true.2 ⟨v, hv, ?_⟩)
      exact decide_eq_true hle
    rw [if_pos hsome]
    exact fun heq ↦ Option.some_ne_none _ heq

/-! ### The gate over a replay -/

variable (fns : SparkFunctions) (events : List (Scd2Event A κ V))

/-- The partition of an entity has distinct history event ids. -/
theorem nodup_historyEventId_partition (member : Option ℤ) :
    ((sortEvents ((Relational.dropDuplicatesOn (fun e ↦ e.historyEventId)
      (events.filter fun e ↦ e.sourceKey.isSome)).filter fun e ↦ e.sourceKey = member)).map
        fun e ↦ e.historyEventId).Nodup :=
  ((sortEvents_perm _).map _).nodup_iff.2
    ((Relational.nodup_map_dropDuplicatesOn _ _).sublist (List.filter_sublist.map _))

/-- The log of an entity. -/
theorem log_entityEvents (k : ℤ) :
    ((sortEvents (entityEvents events k)).map fun e ↦ e.historyEventId).Nodup ∧
      (sortEvents (entityEvents events k)).Pairwise fun a b ↦ eventOrder a < eventOrder b := by
  have hids : ((sortEvents (entityEvents events k)).map fun e ↦ e.historyEventId).Nodup :=
    nodup_historyEventId_partition events (some k)
  have hne := hids
  rw [List.Nodup, List.pairwise_map] at hne
  refine ⟨hids, ((sortEvents_pairwise _).and hne).imp fun ⟨hle, hne⟩ ↦ ?_⟩
  exact hle.lt_of_ne fun heq ↦ hne (historyEventId_eq_of_eventOrder_eq heq)

variable {events} in
/-- A row belongs to the entity of its events. -/
theorem sourceKey_of_mem_replayPartition {log : List (Scd2Event A κ V)}
    (hids : (log.map fun e ↦ e.historyEventId).Nodup) {member : Option ℤ}
    (hkey : ∀ e ∈ log, e.sourceKey = member) {row : Scd2Row A κ V}
    (hrow : row ∈ replayPartition fns log) : row.sourceKey = member := by
  rw [replayPartition_eq_versions fns hids] at hrow
  obtain ⟨i, hi, rfl⟩ := List.mem_mapIdx.1 hrow
  exact hkey _ (Timeline.start_mem_of_mem (List.getElem_mem hi)).1

/-- **The replay works entity by entity.** -/
theorem filter_replay (member : Option ℤ) :
    ((replaySingleEntityScd2 fns events).filter fun v ↦ v.sourceKey = member) =
      replayPartition fns (sortEvents ((Relational.dropDuplicatesOn (fun e ↦ e.historyEventId)
        (events.filter fun e ↦ e.sourceKey.isSome)).filter fun e ↦ e.sourceKey = member)) := by
  rw [replaySingleEntityScd2,
    Window.filter_flatMap_partitionBy (fun e : Scd2Event A κ V ↦ e.sourceKey)
      (fun v : Scd2Row A κ V ↦ v.sourceKey) _ (h := fun p ↦ replayPartition fns (sortEvents p)) rfl]
  intro member row hrow
  refine sourceKey_of_mem_replayPartition fns (nodup_historyEventId_partition events member)
    (fun e he ↦ ?_) hrow
  rw [mem_sortEvents] at he
  exact of_decide_eq_true (List.mem_filter.1 he).2

/-- **The versions of a member are the replay of its events.** -/
theorem versionsOf_replay (includeUnknown : Bool) (unknown : A) (k : ℤ) :
    versionsOf (withUnknown includeUnknown unknown (replaySingleEntityScd2 fns events)) (some k) =
      replayPartition fns (sortEvents (entityEvents events k)) := by
  have hknown : versionsOf (withUnknown includeUnknown unknown (replaySingleEntityScd2 fns events))
      (some k) = (replaySingleEntityScd2 fns events).filter fun v ↦ v.sourceKey = some k := by
    have hrows : ((replaySingleEntityScd2 fns events).filter fun v ↦ v.sourceKey.isSome).filter
        (fun v ↦ v.sourceKey = some k) =
          (replaySingleEntityScd2 fns events).filter fun v ↦ v.sourceKey = some k := by
      rw [List.filter_filter]
      refine List.filter_congr fun v _ ↦ ?_
      by_cases hv : v.sourceKey = some k <;> simp [hv]
    rcases includeUnknown with - | - <;> exact hrows
  rw [hknown, filter_replay]
  rfl

/-- The versions of a member in a replay follow one another. -/
theorem consecutiveVersions_replay (includeUnknown : Bool) (unknown : A) (k : ℤ) :
    ConsecutiveVersions (versionsOf
      (withUnknown includeUnknown unknown (replaySingleEntityScd2 fns events)) (some k)) := by
  obtain ⟨hids, hsorted⟩ := log_entityEvents events k
  rw [versionsOf_replay]
  exact consecutiveVersions_replayPartition fns hids hsorted

/-- **The versions of a member in a replay do not overlap**, whether the gate accepts them or
not. -/
theorem disjointVersions_replay (includeUnknown : Bool) (unknown : A) :
    DisjointVersions (withUnknown includeUnknown unknown (replaySingleEntityScd2 fns events)) := by
  refine disjointVersions_of_consecutive ((Window.pairwise_iff_forall_filter
    (fun v : Scd2Row A κ V ↦ v.sourceKey) fun v _ w _ hne heq ↦ absurd heq hne).2 fun member ↦ ?_)
  rcases member with - | k
  · -- versions of no member are not known
    rw [List.filter_eq_nil_iff.2]
    · exact List.Pairwise.nil
    · intro v hv hnone
      have hsome := (mem_knownVersions.1 hv).2
      rw [of_decide_eq_true hnone] at hsome
      cases hsome
  · exact (consecutiveVersions_replay fns events includeUnknown unknown k).follow.imp
      fun hle _ ↦ Or.inl hle

/-- **The gate accepts a replay exactly if the versions of every entity last.** -/
theorem scd2Violation_replay_iff (includeUnknown : Bool) (unknown : A) :
    scd2Violation (withUnknown includeUnknown unknown (replaySingleEntityScd2 fns events)) = none ↔
      ∀ k, VersionsLast (entityEvents events k) := by
  have hversions := consecutiveVersions_replay fns events includeUnknown unknown
  have hranges : ∀ k, (∀ row ∈ versionsOf
      (withUnknown includeUnknown unknown (replaySingleEntityScd2 fns events)) (some k),
        row.effectiveFrom < row.effectiveTo) ↔ VersionsLast (entityEvents events k) := by
    intro k
    obtain ⟨hids, hsorted⟩ := log_entityEvents events k
    rw [versionsOf_replay]
    exact range_replayPartition_iff fns (fun _ ↦ mem_sortEvents) hids hsorted
  rw [scd2Violation_eq_none_iff hversions]
  constructor
  · intro hall k
    exact (hranges k).1 fun row hrow ↦ hall row (List.mem_filter.1 hrow).1
  · intro hlast row hrow
    obtain ⟨k, hk⟩ := Option.isSome_iff_exists.1 (mem_knownVersions.1 hrow).2
    exact (hranges k).2 (hlast k) row (List.mem_filter.2 ⟨hrow, decide_eq_true hk⟩)

end Gate

/-! ### The four dimensions -/

/-- **The gate accepts the rows of a dimension exactly if no version of it is closed by the time it
begins.** -/
theorem scd2Gate_iff (fns : SparkFunctions) (includeUnknown : Bool) :
    (∀ history, scd2Violation (buildDimShop fns includeUnknown history) = none ↔
      ∀ k, VersionsLast (entityEvents (history.map (shopEvent fns)) k)) ∧
    (∀ history, scd2Violation (buildDimCustomer fns includeUnknown history) = none ↔
      ∀ k, VersionsLast (entityEvents (history.map (customerEvent fns)) k)) ∧
    (∀ history, scd2Violation (buildDimCategory fns includeUnknown history) = none ↔
      ∀ k, VersionsLast (entityEvents (categoryEvents fns history) k)) ∧
    (∀ productHistory variantHistory,
      scd2Violation (buildDimProduct fns includeUnknown productHistory variantHistory) = none ↔
        ∀ k, VersionsLast (entityEvents (productEvents fns productHistory variantHistory) k)) :=
  ⟨fun _ ↦ scd2Violation_replay_iff fns _ includeUnknown unknownShop,
    fun _ ↦ scd2Violation_replay_iff fns _ includeUnknown unknownCustomer,
    fun _ ↦ scd2Violation_replay_iff fns _ includeUnknown unknownCategory,
    fun _ _ ↦ scd2Violation_replay_iff fns _ includeUnknown unknownProduct⟩

/-- A shop that is inserted and renamed in one transaction, whose time both change events carry. -/
def shopOfOneTransaction : List (HistoryRow ℤ ShopColumns) :=
  let row (operation : Operation) (eventId : ℤ) (id : Char) (name : Char) :
      HistoryRow ℤ ShopColumns :=
    { key := 7
      createdAt := 10
      payload :=
        { publicShopId := none
          shopName := some [name]
          shopSlug := none
          status := none
          updatedAt := some 10 }
      operation := operation
      eventOccurredAt := some 10
      historyEventId := [id]
      ingestionMode := .cdc
      order := ⟨some 1, some eventId, none, none, none, none⟩ }
  [row .insert 1 'a' 'x', row .update 2 'b' 'y']

/-- **Two changes in one transaction block the gate**: the first version is closed when it
begins. -/
theorem scd2Gate_blocked :
    ((buildDimShop .plain false shopOfOneTransaction).map fun row ↦
      (row.effectiveFrom, row.effectiveTo, row.isCurrent)) =
        [(10, 10, false), (10, openEndedEffectiveTo, true)] ∧
    scd2Violation (buildDimShop .plain true shopOfOneTransaction) = some .invalidRange := by
  decide +kernel

end LakehousePipeline
