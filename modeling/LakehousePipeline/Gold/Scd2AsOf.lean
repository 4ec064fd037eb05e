import LakehousePipeline.Gold.Scd2Versions

/-!
# The SCD2 rows of one entity, as of an instant

What the replay promises about one entity, in terms of its events alone. Events are compared by
`eventOrder`; the event in force at an instant is the last one at or before it
(`IsLastAtOrBefore`), and `IsAsOfHistory` says what rows describe the history: at every instant
since the entity first existed, one row when it exists and none when it does not.

An instant before the entity first existed is special: the first version is pulled back to the
business creation time, so it, and no other, may cover such an instant.

## The rows, one by one

An instant alone does not tell which version a row stands for: an entity may take up old attributes
again, and a version may be empty when two changes share a time. So the rows are also matched with
the events that start a version (`IsVersionStart`), in order and one to one, and each row is read
off its event (`IsVersionRow`): its range runs from there to the event that closes the version, and
its Type-1 values and its deletion mark come from that stretch of the history and from no other.

The definitions do not mention the log or its cut into versions. `isVersionStart_iff` and
`isClosingEvent_iff` are what connects them: in a sorted log of the entity, versions start and end
at exactly these events.
-/

namespace LakehousePipeline

variable {A κ V : Type}

/-! ### The history in its own terms -/

/-- The last of all events. -/
def IsLastEvent (events : List (Scd2Event A κ V)) (e : Scd2Event A κ V) : Prop :=
  e ∈ events ∧ ∀ x ∈ events, eventOrder x ≤ eventOrder e

/-- The last event at or before `t`. -/
def IsLastAtOrBefore (events : List (Scd2Event A κ V)) (t : Timestamp) (e : Scd2Event A κ V) :
    Prop :=
  e ∈ events ∧ e.eventTime ≤ t ∧ ∀ x ∈ events, x.eventTime ≤ t → eventOrder x ≤ eventOrder e

/-- The event that closes the version started by `s`: the first later delete or change of hash. -/
def IsClosingEvent (events : List (Scd2Event A κ V)) (s c : Scd2Event A κ V) : Prop :=
  c ∈ events ∧ eventOrder s < eventOrder c ∧ entityState c ≠ entityState s ∧
    ∀ x ∈ events, eventOrder s < eventOrder x → eventOrder x < eventOrder c →
      entityState x = entityState s

/-- The event belongs to the version started by `s`. -/
def IsVersionEvent (events : List (Scd2Event A κ V)) (s e : Scd2Event A κ V) : Prop :=
  e ∈ events ∧ eventOrder s ≤ eventOrder e ∧
    ∀ x ∈ events, eventOrder s ≤ eventOrder x → eventOrder x ≤ eventOrder e →
      entityState x = entityState s

/-- The entity exists after `s`, in a state the event before it did not leave. -/
def IsVersionStart (events : List (Scd2Event A κ V)) (s : Scd2Event A κ V) : Prop :=
  s ∈ events ∧ s.operation ≠ .delete ∧ ∀ p ∈ events, eventOrder p < eventOrder s →
    (∀ x ∈ events, eventOrder x < eventOrder s → eventOrder x ≤ eventOrder p) →
      entityState p ≠ entityState s

/-- The instant a version begins: the first one is pulled back to the creation of its row. -/
def versionBegin (events : List (Scd2Event A κ V)) (s : Scd2Event A κ V) : Timestamp :=
  if s.operation = .seed then s.eventTime
  else if ∃ p ∈ events, eventOrder p < eventOrder s ∧ p.operation ≠ .delete then s.eventTime
  else leastOf s.initialEffectiveFrom s.eventTime

/-- **The row of the version that starts at `s`.** Nothing in it comes from an event outside the
version, the closing event apart. -/
structure IsVersionRow (events : List (Scd2Event A κ V)) (s : Scd2Event A κ V)
    (row : Scd2Row A κ V) : Prop where
  /-- It is about the entity of the event. -/
  sourceKey : row.sourceKey = s.sourceKey
  /-- Its Type-2 columns are those of the event. -/
  attributes : row.attributes = s.attributes
  /-- And so is their hash. -/
  attributeHash : row.attributeHash = some s.attributeHash
  /-- It begins with the event, the first version possibly earlier. -/
  effectiveFrom : row.effectiveFrom = versionBegin events s
  /-- It ends with the event that closes the version. -/
  effectiveTo : ∀ c, IsClosingEvent events s c → row.effectiveTo = c.eventTime
  /-- It is open-ended when no event does. -/
  openEnded : (∀ c, ¬IsClosingEvent events s c) → row.effectiveTo = openEndedEffectiveTo
  /-- It is current exactly when no event closes the version. -/
  isCurrent : row.isCurrent = true ↔ ∀ c, ¬IsClosingEvent events s c
  /-- It is marked deleted exactly when a delete closes the version. -/
  isDeleted : row.isDeleted = true ↔ ∃ c, IsClosingEvent events s c ∧ c.operation = .delete
  /-- A Type-1 value is the last one that is not null among the events of the version. -/
  lastValue : ∀ column v, row.type1 column = some v → ∃ e, IsVersionEvent events s e ∧
    e.type1 column = some v ∧
    ∀ x, IsVersionEvent events s x → eventOrder e < eventOrder x → x.type1 column = none
  /-- A Type-1 column is null only if it is in all of them. -/
  noValue : ∀ column, row.type1 column = none →
    ∀ e, IsVersionEvent events s e → e.type1 column = none

/-- **Rows that describe a history of one entity.** -/
structure IsAsOfHistory (events : List (Scd2Event A κ V)) (rows : List (Scd2Row A κ V)) : Prop where
  /-- Since the entity first existed, one row covers an instant when the last event at or before it
  is no delete, and none does otherwise. -/
  covering : ∀ t, (∃ first ∈ events, first.operation ≠ .delete ∧ first.eventTime ≤ t) →
    t < openEndedEffectiveTo → ∀ last, IsLastAtOrBefore events t last →
      (last.operation = .delete → (rows.filter fun row ↦ row.Covers t) = []) ∧
      (last.operation ≠ .delete → ∃ row, (rows.filter fun row ↦ row.Covers t) = [row] ∧
        row.attributeHash = some last.attributeHash)
  /-- Before the entity first existed, only the first version may apply. -/
  beforeFirst : ∀ t, (∀ e ∈ events, e.operation ≠ .delete → t < e.eventTime) →
    (rows.filter fun row ↦ row.Covers t) = [] ∨
      ∃ first later, rows = first :: later ∧ (rows.filter fun row ↦ row.Covers t) = [first] ∧
        ∀ row ∈ later, first.effectiveFrom ≤ row.effectiveFrom
  /-- One row is current when the last event is no delete. -/
  current : (∃ last, IsLastEvent events last ∧ last.operation ≠ .delete) →
    ∃ row, (rows.filter fun row ↦ row.isCurrent) = [row]
  /-- Otherwise none is. -/
  noCurrent : (¬∃ last, IsLastEvent events last ∧ last.operation ≠ .delete) →
    (rows.filter fun row ↦ row.isCurrent) = []
  /-- The rows are the versions: one for each event that starts one, in the order of the events. -/
  versions : ∃ starts, (∀ s, s ∈ starts ↔ IsVersionStart events s) ∧
    starts.Pairwise (fun s s' ↦ eventOrder s < eventOrder s') ∧
      List.Forall₂ (IsVersionRow events) starts rows

/-! ### The log of an entity -/

/-- The de-duplicated events in order. -/
def historyLog (events : List (Scd2Event A κ V)) : List (Scd2Event A κ V) :=
  sortEvents (Relational.dropDuplicatesOn (fun e ↦ e.historyEventId) events)

/-- No event occurs twice in the log. -/
theorem nodup_historyEventId_historyLog (events : List (Scd2Event A κ V)) :
    ((historyLog events).map fun e ↦ e.historyEventId).Nodup :=
  ((sortEvents_perm _).map _).nodup_iff.2 (Relational.nodup_map_dropDuplicatesOn _ _)

/-- The order is strict on the log: ties end at the history event id. -/
theorem historyLog_pairwise (events : List (Scd2Event A κ V)) :
    (historyLog events).Pairwise fun a b ↦ eventOrder a < eventOrder b := by
  have hids := nodup_historyEventId_historyLog events
  rw [List.Nodup, List.pairwise_map] at hids
  refine ((sortEvents_pairwise _).and hids).imp fun ⟨hle, hne⟩ ↦ ?_
  exact hle.lt_of_ne fun heq ↦ hne (historyEventId_eq_of_eventOrder_eq heq)

/-- The log has the events, if copies are equal. -/
theorem mem_historyLog {events : List (Scd2Event A κ V)}
    (hcopies : ∀ e ∈ events, ∀ e' ∈ events, e.historyEventId = e'.historyEventId → e = e')
    {e : Scd2Event A κ V} : e ∈ historyLog events ↔ e ∈ events := by
  rw [historyLog, mem_sortEvents, Relational.mem_dropDuplicatesOn_iff hcopies]

/-- The replay of a history of one entity computes the versions of its log. -/
theorem replaySingleEntityScd2_eq_versions (fns : SparkFunctions) {events : List (Scd2Event A κ V)}
    {k : ℤ} (hkey : ∀ e ∈ events, e.sourceKey = some k) :
    replaySingleEntityScd2 fns events =
      (Timeline.versions entityState (historyLog events)).mapIdx
        fun i v ↦ versionRow fns (i + 1) v := by
  have hfilter : (events.filter fun e ↦ e.sourceKey.isSome) = events :=
    List.filter_eq_self.2 fun e he ↦ by rw [hkey e he]; rfl
  rw [replaySingleEntityScd2, hfilter]
  cases events with
  | nil => rfl
  | cons e rest =>
    rw [Window.partitionBy_of_const (k := some k) (by simp) fun y hy ↦
      hkey y (Relational.mem_of_mem_dropDuplicatesOn hy), List.flatMap_singleton]
    exact replayPartition_eq_versions fns (nodup_historyEventId_historyLog _)

/-! ### Rows and versions -/

/-- Selecting rows is selecting versions, when the two selections agree version by version. -/
theorem filter_rows (vs : List (Timeline.Version (Scd2Event A κ V)))
    (f : ℕ → Timeline.Version (Scd2Event A κ V) → Scd2Row A κ V) (p : Scd2Row A κ V → Bool)
    (q : Timeline.Version (Scd2Event A κ V) → Bool)
    (h : ∀ i v, vs[i]? = some v → p (f i v) = q v) :
    (vs.filter q = [] → (vs.mapIdx f).filter p = []) ∧
      ∀ v, vs.filter q = [v] → ∃ i, (vs.mapIdx f).filter p = [f i v] := by
  have hrows : (vs.mapIdx f).filter p = (vs.zipIdx.filter fun x ↦ q x.1).map fun x ↦ f x.2 x.1 := by
    rw [List.mapIdx_eq_zipIdx_map, List.filter_map]
    congr 1
    exact List.filter_congr fun x hx ↦ h x.2 x.1 (List.mem_zipIdx_iff_getElem?.1 hx)
  have hfst : (vs.zipIdx.filter fun x ↦ q x.1).map Prod.fst = vs.filter q := by
    conv_rhs => rw [← List.zipIdx_map_fst 0 vs, List.filter_map]
    rfl
  refine ⟨fun hnil ↦ ?_, fun v hone ↦ ?_⟩
  · rw [hrows, List.map_eq_nil_iff, ← List.map_eq_nil_iff (f := Prod.fst), hfst, hnil]
  · rw [hone] at hfst
    obtain ⟨⟨w, i⟩, hpair, hw⟩ := List.map_eq_singleton_iff.1 hfst
    obtain rfl : w = v := hw
    exact ⟨i, by rw [hrows, hpair, List.map_singleton]⟩

/-- The current rows are those of the versions that no event has closed. -/
theorem filter_isCurrent_rows (fns : SparkFunctions)
    (vs : List (Timeline.Version (Scd2Event A κ V))) :
    (vs.filter (fun v ↦ v.closedBy.isNone) = [] →
      ((vs.mapIdx fun i v ↦ versionRow fns (i + 1) v).filter fun row ↦ row.isCurrent) = []) ∧
    ∀ v, vs.filter (fun v ↦ v.closedBy.isNone) = [v] →
      ∃ i, ((vs.mapIdx fun i v ↦ versionRow fns (i + 1) v).filter fun row ↦ row.isCurrent) =
        [versionRow fns (i + 1) v] := by
  refine filter_rows vs _ _ _ fun i v _ ↦ ?_
  cases hc : v.closedBy with
  | none => simp [versionRow, scd2Row, hc]
  | some c => simp [versionRow, scd2Row, hc]

/-- The first version may be pulled back, the others start with their event. -/
theorem effectiveFrom_le (e : Scd2Event A κ V) (number : ℕ) :
    effectiveFrom e number ≤ e.eventTime := by
  unfold effectiveFrom
  split
  · exact le_rfl
  · split
    · exact leastOf_le _ _
    · exact le_rfl

/-- Only the first version is pulled back. -/
theorem effectiveFrom_of_ne_one (e : Scd2Event A κ V) {number : ℕ} (h : number ≠ 1) :
    effectiveFrom e number = e.eventTime := by
  rw [effectiveFrom, if_neg h, ite_self]

/-- The versions of a log start at the events that start one. -/
theorem isVersionStart_iff {log events : List (Scd2Event A κ V)}
    (hmem : ∀ e, e ∈ log ↔ e ∈ events)
    (hsorted : log.Pairwise fun a b ↦ eventOrder a < eventOrder b) (s : Scd2Event A κ V) :
    IsVersionStart events s ↔
      s ∈ (Timeline.versions entityState log).map fun v ↦ v.start := by
  rw [Timeline.mem_map_start_iff_of_sorted hsorted]
  simp only [IsVersionStart, hmem, ne_eq, entityState_eq_none]

/-- What closes a version of a log, among the events. -/
theorem isClosingEvent_iff {log events : List (Scd2Event A κ V)}
    (hmem : ∀ e, e ∈ log ↔ e ∈ events)
    (hsorted : log.Pairwise fun a b ↦ eventOrder a < eventOrder b)
    {v : Timeline.Version (Scd2Event A κ V)} (hv : v ∈ Timeline.versions entityState log)
    (c : Scd2Event A κ V) : IsClosingEvent events v.start c ↔ v.closedBy = some c := by
  rw [Timeline.closedBy_eq_some_iff hsorted hv]
  simp only [IsClosingEvent, hmem]

/-- The start a row is given. -/
theorem effectiveFrom_eq_versionBegin {log events : List (Scd2Event A κ V)}
    (hmem : ∀ e, e ∈ log ↔ e ∈ events)
    (hsorted : log.Pairwise fun a b ↦ eventOrder a < eventOrder b) {i : ℕ}
    {v : Timeline.Version (Scd2Event A κ V)}
    (hv : (Timeline.versions entityState log)[i]? = some v) :
    effectiveFrom v.start (i + 1) = versionBegin events v.start := by
  have hfirst : i = 0 ↔
      ¬∃ p ∈ events, eventOrder p < eventOrder v.start ∧ p.operation ≠ .delete := by
    rw [Timeline.index_eq_zero_iff hsorted hv]
    simp only [hmem, entityState_eq_none, not_exists, not_and, not_not]
  rw [effectiveFrom, versionBegin]
  split
  case isTrue => rfl
  case isFalse =>
    by_cases hi : i = 0
    · rw [if_pos (by omega), if_neg (hfirst.1 hi)]
    · rw [if_neg (by omega), if_pos (not_not.1 fun hno ↦ hi (hfirst.2 hno))]

/-- A row covers the instants its version covers, at least those at or after the start event when
the start is pulled back. -/
theorem covers_versionRow_iff {fns : SparkFunctions} {number : ℕ}
    {v : Timeline.Version (Scd2Event A κ V)} {t : Timestamp} (ht : t < openEndedEffectiveTo)
    (hstart : number = 1 → v.start.eventTime ≤ t) :
    (versionRow fns number v).Covers t ↔ v.Covers (fun e ↦ e.eventTime) t := by
  have hfrom : effectiveFrom v.start number ≤ t ↔ v.start.eventTime ≤ t := by
    by_cases h : number = 1
    · exact iff_of_true ((effectiveFrom_le _ _).trans (hstart h)) (hstart h)
    · rw [effectiveFrom_of_ne_one _ h]
  have hto : t < (v.closedBy.map fun e ↦ e.eventTime).getD openEndedEffectiveTo ↔
      ∀ c, v.closedBy = some c → t < c.eventTime := by
    cases v.closedBy <;> simp [ht]
  exact and_congr hfrom hto

section History

variable {fns : SparkFunctions} {events : List (Scd2Event A κ V)}

/-- The log is sorted by time. -/
private theorem historyLog_pairwise_eventTime (events : List (Scd2Event A κ V)) :
    (historyLog events).Pairwise fun a b ↦ a.eventTime ≤ b.eventTime :=
  (historyLog_pairwise events).imp fun h ↦ eventTime_le_of_eventOrder_le h.le

/-- The first version starts at or before every event that leaves the entity existing. -/
private theorem start_le_of_head? {v : Timeline.Version (Scd2Event A κ V)}
    (hv : (Timeline.versions entityState (historyLog events)).head? = some v)
    {e : Scd2Event A κ V} (he : e ∈ historyLog events) (hop : e.operation ≠ .delete) :
    eventOrder v.start ≤ eventOrder e := by
  have hfind := Timeline.head?_versions_map_start entityState (historyLog events)
  rw [hv, Option.map_some, eq_comm,
    Timeline.find?_eq_some_iff_of_sorted (historyLog_pairwise events)] at hfind
  refine le_of_not_gt fun hlt ↦ hop ?_
  simpa using hfind.2.2 e he hlt

/-- The state after the last event at or before an instant. -/
private theorem lastState_filter_eq
    (hmem : ∀ {e : Scd2Event A κ V}, e ∈ historyLog events ↔ e ∈ events) {t : Timestamp}
    {last : Scd2Event A κ V} (hlast : IsLastAtOrBefore events t last) :
    Timeline.lastState entityState none ((historyLog events).filter fun e ↦ e.eventTime ≤ t) =
      entityState last := by
  obtain ⟨hin, htime, hmax⟩ := hlast
  rw [Timeline.lastState, Timeline.getLast?_eq_some_of_max
    ((historyLog_pairwise events).sublist List.filter_sublist) (x := last)]
  · rfl
  · exact List.mem_filter.2 ⟨hmem.2 hin, by simpa using htime⟩
  · intro x hx
    obtain ⟨hx, hxt⟩ := List.mem_filter.1 hx
    exact hmax x (hmem.1 hx) (by simpa using hxt)

/-- The rows that cover an instant, when the first version has begun, are those of the versions that
do. -/
private theorem covering_versions
    (hmem : ∀ {e : Scd2Event A κ V}, e ∈ historyLog events ↔ e ∈ events) {t : Timestamp}
    (hfirst : ∃ first ∈ events, first.operation ≠ .delete ∧ first.eventTime ≤ t)
    (ht : t < openEndedEffectiveTo) {last : Scd2Event A κ V}
    (hlast : IsLastAtOrBefore events t last) :
    let vs := Timeline.versions entityState (historyLog events)
    let rows := vs.mapIdx fun i v ↦ versionRow fns (i + 1) v
    (last.operation = .delete → (rows.filter fun row ↦ row.Covers t) = []) ∧
      (last.operation ≠ .delete → ∃ i v, v ∈ vs ∧ v.Covers (fun e ↦ e.eventTime) t ∧
        entityState v.start = entityState last ∧
          (rows.filter fun row ↦ row.Covers t) = [versionRow fns (i + 1) v]) := by
  intro vs rows
  obtain ⟨hnone, hone⟩ := Timeline.covering_versions_spec entityState
    (historyLog_pairwise_eventTime events) t
  rw [lastState_filter_eq hmem hlast] at hnone hone
  have hselect := filter_rows vs (fun i v ↦ versionRow fns (i + 1) v) (fun row ↦ row.Covers t)
    (fun v ↦ v.Covers (fun e ↦ e.eventTime) t) fun i v hv ↦ by
      rw [decide_eq_decide]
      refine covers_versionRow_iff ht fun hi ↦ ?_
      obtain ⟨first, hin, hop, hle⟩ := hfirst
      obtain rfl : i = 0 := by omega
      rw [← List.head?_eq_getElem?] at hv
      exact (eventTime_le_of_eventOrder_le (start_le_of_head? hv (hmem.2 hin) hop)).trans hle
  refine ⟨fun hdel ↦ hselect.1 (hnone (entityState_eq_none.2 hdel)), fun hop ↦ ?_⟩
  obtain ⟨v, hv, hstate⟩ := hone (by simpa using hop)
  obtain ⟨i, hrow⟩ := hselect.2 v hv
  have hcov : v ∈ vs.filter fun v ↦ v.Covers (fun e ↦ e.eventTime) t :=
    hv ▸ List.mem_singleton.2 rfl
  obtain ⟨hin, hcov⟩ := List.mem_filter.1 hcov
  exact ⟨i, v, hin, of_decide_eq_true hcov, hstate, hrow⟩

/-- The rows that cover an instant, when the first version has begun. -/
private theorem covering_rows
    (hmem : ∀ {e : Scd2Event A κ V}, e ∈ historyLog events ↔ e ∈ events) {t : Timestamp}
    (hfirst : ∃ first ∈ events, first.operation ≠ .delete ∧ first.eventTime ≤ t)
    (ht : t < openEndedEffectiveTo) {last : Scd2Event A κ V}
    (hlast : IsLastAtOrBefore events t last) :
    let rows := (Timeline.versions entityState (historyLog events)).mapIdx
      fun i v ↦ versionRow fns (i + 1) v
    (last.operation = .delete → (rows.filter fun row ↦ row.Covers t) = []) ∧
      (last.operation ≠ .delete → ∃ row, (rows.filter fun row ↦ row.Covers t) = [row] ∧
        row.attributeHash = some last.attributeHash) := by
  intro rows
  obtain ⟨hnone, hone⟩ := covering_versions hmem hfirst ht hlast
  refine ⟨hnone, fun hop ↦ ?_⟩
  obtain ⟨i, v, -, -, hstate, hrow⟩ := hone hop
  refine ⟨_, hrow, ?_⟩
  have hstart : v.start.operation ≠ .delete := fun hdel ↦
    hop (entityState_eq_none.1 (hstate ▸ entityState_eq_none.2 hdel))
  rw [entityState_of_ne hstart, entityState_of_ne hop] at hstate
  exact hstate

/-- The rows that cover an instant before the first version begins. -/
private theorem covering_rows_before
    (hmem : ∀ {e : Scd2Event A κ V}, e ∈ historyLog events ↔ e ∈ events) {t : Timestamp}
    (ht : ∀ e ∈ events, e.operation ≠ .delete → t < e.eventTime) :
    let rows := (Timeline.versions entityState (historyLog events)).mapIdx
      fun i v ↦ versionRow fns (i + 1) v
    (rows.filter fun row ↦ row.Covers t) = [] ∨
      ∃ first later, rows = first :: later ∧ (rows.filter fun row ↦ row.Covers t) = [first] ∧
        ∀ row ∈ later, first.effectiveFrom ≤ row.effectiveFrom := by
  intro rows
  rcases hvs : Timeline.versions entityState (historyLog events) with - | ⟨v, rest⟩
  · exact Or.inl (by simp [rows, hvs])
  · have hcons : rows = versionRow fns 1 v ::
        rest.mapIdx fun i w ↦ versionRow fns (i + 1 + 1) w := by
      simp only [rows, hvs, List.mapIdx_cons, Nat.zero_add]
    have hstarts := (historyLog_pairwise events).sublist
      (Timeline.map_start_sublist entityState none (historyLog events))
    rw [show Timeline.versionsFrom entityState none (historyLog events) = v :: rest from hvs,
      List.map_cons, List.pairwise_cons] at hstarts
    have hlater : ∀ row ∈ rest.mapIdx (fun i w ↦ versionRow fns (i + 1 + 1) w),
        ∃ w ∈ rest, row.effectiveFrom = w.start.eventTime := by
      intro row hrow
      obtain ⟨i, hi, rfl⟩ := List.mem_mapIdx.1 hrow
      exact ⟨rest[i], List.getElem_mem _, effectiveFrom_of_ne_one _ (by omega)⟩
    have hnone : ((rest.mapIdx fun i w ↦ versionRow fns (i + 1 + 1) w).filter
        fun row ↦ row.Covers t) = [] := by
      refine List.filter_eq_nil_iff.2 fun row hrow hcov ↦ ?_
      obtain ⟨w, hw, hfrom⟩ := hlater row hrow
      have hwv : w ∈ Timeline.versions entityState (historyLog events) := by simp [hvs, hw]
      obtain ⟨hin, hstate⟩ := Timeline.start_mem_of_mem hwv
      have hle : w.start.eventTime ≤ t := hfrom ▸ (of_decide_eq_true hcov).1
      exact absurd hle (ht _ (hmem.1 hin) (by simpa using hstate)).not_ge
    by_cases hcov : (versionRow fns 1 v).Covers t
    · refine Or.inr ⟨_, _, hcons, ?_, fun row hrow ↦ ?_⟩
      · rw [hcons, List.filter_cons_of_pos (by simpa using hcov), hnone]
      · obtain ⟨w, hw, hfrom⟩ := hlater row hrow
        rw [hfrom]
        exact (effectiveFrom_le _ _).trans
          (eventTime_le_of_eventOrder_le (hstarts.1 _ (List.mem_map_of_mem hw)).le)
    · exact Or.inl (by rw [hcons, List.filter_cons_of_neg (by simpa using hcov), hnone])

/-- The row that covers an instant is that of the version the last event belongs to. -/
theorem covering_of_isLastAtOrBefore {k : ℤ} (hkey : ∀ e ∈ events, e.sourceKey = some k)
    (hcopies : ∀ e ∈ events, ∀ e' ∈ events, e.historyEventId = e'.historyEventId → e = e')
    {t : Timestamp} (ht : t < openEndedEffectiveTo) {last : Scd2Event A κ V}
    (hlast : IsLastAtOrBefore events t last) (hop : last.operation ≠ .delete) :
    ∃ row s, ((replaySingleEntityScd2 fns events).filter fun row ↦ row.Covers t) = [row] ∧
      s ∈ (Timeline.versions entityState (historyLog events)).map (fun v ↦ v.start) ∧
        IsVersionEvent events s last ∧ row.attributes = s.attributes ∧
          row.attributeHash = some s.attributeHash := by
  have hmem : ∀ {e : Scd2Event A κ V}, e ∈ historyLog events ↔ e ∈ events := mem_historyLog hcopies
  have hsorted := historyLog_pairwise events
  obtain ⟨hin, hle, hmax⟩ := hlast
  obtain ⟨-, hone⟩ := covering_versions hmem ⟨last, hin, hop, hle⟩ ht ⟨hin, hle, hmax⟩
  obtain ⟨i, v, hv, hcov, -, hrow⟩ := hone hop
  rw [replaySingleEntityScd2_eq_versions fns hkey]
  refine ⟨_, v.start, hrow, List.mem_map_of_mem hv, ⟨hin, ?_, fun x hx hsx hxl ↦ ?_⟩, rfl, rfl⟩
  · exact hmax _ (hmem.1 (Timeline.start_mem_of_mem hv).1) hcov.1
  · -- what closes the version happens after `t`, and `x` does not
    by_contra hne
    have hlt : eventOrder v.start < eventOrder x :=
      hsx.lt_of_ne fun heq ↦ hne (by
        rw [Timeline.eq_of_key_eq hsorted (hmem.2 hx) (Timeline.start_mem_of_mem hv).1 heq.symm])
    have hopen : ∃ c, v.closedBy = some c ∧ eventOrder c ≤ eventOrder x := by
      obtain ⟨pre, post, hlog, -, -, hclosed⟩ := Timeline.exists_split_of_mem hv
      have hpost : x ∈ post := by
        rw [hlog] at hsorted
        exact (Timeline.mem_iff_lt_of_split hsorted).2 ⟨hlog ▸ hmem.2 hx, hlt⟩
      rcases hc : v.closedBy with - | c
      · rw [hc, eq_comm, List.find?_eq_none] at hclosed
        exact absurd hne (by simpa using hclosed x hpost)
      · refine ⟨c, rfl, le_of_not_gt fun hxc ↦ hne ?_⟩
        exact ((Timeline.closedBy_eq_some_iff hsorted hv).1 hc).2.2.2 x (hmem.2 hx) hlt hxc
    obtain ⟨c, hc, hcx⟩ := hopen
    have hct : c.eventTime ≤ t := (eventTime_le_of_eventOrder_le (hcx.trans hxl)).trans hle
    exact absurd hct (hcov.2 c hc).not_ge

/-- The current rows. -/
private theorem current_rows
    (hmem : ∀ {e : Scd2Event A κ V}, e ∈ historyLog events ↔ e ∈ events) :
    let rows := (Timeline.versions entityState (historyLog events)).mapIdx
      fun i v ↦ versionRow fns (i + 1) v
    ((∃ last, IsLastEvent events last ∧ last.operation ≠ .delete) →
        ∃ row, (rows.filter fun row ↦ row.isCurrent) = [row]) ∧
      ((¬∃ last, IsLastEvent events last ∧ last.operation ≠ .delete) →
        (rows.filter fun row ↦ row.isCurrent) = []) := by
  intro rows
  obtain ⟨hnone, hone⟩ := Timeline.open_versions_eq entityState (historyLog events)
  have hselect := filter_isCurrent_rows fns (Timeline.versions entityState (historyLog events))
  refine ⟨fun ⟨last, ⟨hin, hmax⟩, hop⟩ ↦ ?_, fun hno ↦ hselect.1 (hnone ?_)⟩
  · have hlast : Timeline.lastState entityState none (historyLog events) = entityState last := by
      rw [Timeline.lastState, Timeline.getLast?_eq_some_of_max (historyLog_pairwise events)
        (hmem.2 hin) fun x hx ↦ hmax x (hmem.1 hx)]
      rfl
    obtain ⟨v, hv, -⟩ := hone (by simpa [hlast] using hop)
    obtain ⟨i, hrow⟩ := hselect.2 v hv
    exact ⟨_, hrow⟩
  · rcases List.eq_nil_or_concat (historyLog events) with hnil | ⟨init, e, hlog⟩
    · rw [hnil, Timeline.lastState_nil]
    · have hlast : IsLastEvent events e := by
        refine ⟨hmem.1 (by simp [hlog]), fun x hx ↦ ?_⟩
        have hsorted := historyLog_pairwise events
        have hx := hmem.2 hx
        rw [hlog, List.concat_eq_append, List.pairwise_append] at hsorted
        rw [hlog, List.concat_eq_append, List.mem_append, List.mem_singleton] at hx
        rcases hx with hx | rfl
        · exact (hsorted.2.2 x hx e List.mem_cons_self).le
        · exact le_rfl
      have hdel : e.operation = .delete := by
        by_contra hop
        exact hno ⟨e, hlast, hop⟩
      rw [hlog, List.concat_eq_append, Timeline.lastState, List.getLast?_concat]
      simpa using hdel

/-- The Type-1 value of a version's row. -/
private theorem type1_row
    (hmem : ∀ {e : Scd2Event A κ V}, e ∈ historyLog events ↔ e ∈ events)
    {v : Timeline.Version (Scd2Event A κ V)}
    (hv : v ∈ Timeline.versions entityState (historyLog events)) (number : ℕ) (column : κ) :
    (∀ value, (versionRow fns number v).type1 column = some value →
        ∃ e, IsVersionEvent events v.start e ∧ e.type1 column = some value ∧
          ∀ x, IsVersionEvent events v.start x → eventOrder e < eventOrder x →
            x.type1 column = none) ∧
      ((versionRow fns number v).type1 column = none →
        ∀ e, IsVersionEvent events v.start e → e.type1 column = none) := by
  have hsorted := historyLog_pairwise events
  have hmembers : ∀ e, e ∈ v.members ↔ IsVersionEvent events v.start e := fun e ↦ by
    rw [Timeline.mem_members_iff hsorted hv]
    simp only [hmem]
    rfl
  refine ⟨fun value hvalue ↦ ?_, fun hnone e he ↦ ?_⟩
  · obtain ⟨pre, e, post, hsplit, hvalue, hpost⟩ := Window.lastNonNull_eq_some hvalue
    refine ⟨e, (hmembers e).1 (by simp [hsplit]), hvalue, fun x hx hlt ↦ hpost x ?_⟩
    have hstrict : v.members.Pairwise fun a b ↦ eventOrder a < eventOrder b := by
      obtain ⟨before, after, hlog, -, hm, -⟩ := Timeline.exists_split_of_mem hv
      rw [hm]
      rw [hlog] at hsorted
      exact hsorted.sublist
        (((List.takeWhile_sublist _).cons_cons _).trans (List.sublist_append_right _ _))
    rw [hsplit] at hstrict
    exact (Timeline.mem_iff_lt_of_split hstrict).2 ⟨hsplit ▸ (hmembers x).2 hx, hlt⟩
  · exact Window.lastNonNull_eq_none_iff.1 hnone e ((hmembers e).2 he)

/-- **A version's row is the row of the version that starts at its event.** -/
private theorem isVersionRow_versionRow
    (hmem : ∀ {e : Scd2Event A κ V}, e ∈ historyLog events ↔ e ∈ events) {i : ℕ}
    {v : Timeline.Version (Scd2Event A κ V)}
    (hi : (Timeline.versions entityState (historyLog events))[i]? = some v) :
    IsVersionRow events v.start (versionRow fns (i + 1) v) := by
  have hv : v ∈ Timeline.versions entityState (historyLog events) := List.mem_of_getElem? hi
  have hclosing := isClosingEvent_iff (fun _ ↦ hmem) (historyLog_pairwise events) hv
  have hopen : (∀ c, ¬IsClosingEvent events v.start c) ↔ v.closedBy = none := by
    simp only [hclosing]
    exact Option.eq_none_iff_forall_ne_some.symm
  refine
    { sourceKey := rfl
      attributes := rfl
      attributeHash := rfl
      effectiveFrom := effectiveFrom_eq_versionBegin (fun _ ↦ hmem) (historyLog_pairwise events) hi
      effectiveTo := fun c hc ↦ ?_
      openEnded := fun hno ↦ ?_
      isCurrent := ?_
      isDeleted := ?_
      lastValue := fun column ↦ (type1_row hmem hv (i + 1) column).1
      noValue := fun column ↦ (type1_row hmem hv (i + 1) column).2 }
  · rw [versionRow, scd2Row, (hclosing c).1 hc]
    rfl
  · rw [versionRow, scd2Row, hopen.1 hno]
    rfl
  · rw [hopen]
    cases hc : v.closedBy <;> simp [versionRow, scd2Row, hc]
  · simp only [hclosing]
    cases hc : v.closedBy <;> simp [versionRow, scd2Row, hc]

/-- The rows correspond, in order, to the events that start a version. -/
private theorem versions_rows
    (hmem : ∀ {e : Scd2Event A κ V}, e ∈ historyLog events ↔ e ∈ events) :
    ∃ starts, (∀ s, s ∈ starts ↔ IsVersionStart events s) ∧
      starts.Pairwise (fun s s' ↦ eventOrder s < eventOrder s') ∧
        List.Forall₂ (IsVersionRow events) starts
          ((Timeline.versions entityState (historyLog events)).mapIdx
            fun i v ↦ versionRow fns (i + 1) v) := by
  refine ⟨(Timeline.versions entityState (historyLog events)).map fun v ↦ v.start,
    fun s ↦ (isVersionStart_iff (fun _ ↦ hmem) (historyLog_pairwise events) s).symm,
    (historyLog_pairwise events).sublist (Timeline.map_start_sublist entityState none _), ?_⟩
  refine List.forall₂_iff_get.2 ⟨by simp, fun i hi _ ↦ ?_⟩
  rw [List.length_map] at hi
  simpa using isVersionRow_versionRow hmem (List.getElem?_eq_getElem hi)

end History

/-- **SCD2 as-of correctness**: the rows the replay emits describe the history of the entity. -/
theorem isAsOfHistory_replaySingleEntityScd2 (fns : SparkFunctions)
    (events : List (Scd2Event A κ V)) (k : ℤ) (hkey : ∀ e ∈ events, e.sourceKey = some k)
    (hcopies : ∀ e ∈ events, ∀ e' ∈ events, e.historyEventId = e'.historyEventId → e = e') :
    IsAsOfHistory events (replaySingleEntityScd2 fns events) := by
  have hmem : ∀ {e : Scd2Event A κ V}, e ∈ historyLog events ↔ e ∈ events := mem_historyLog hcopies
  rw [replaySingleEntityScd2_eq_versions fns hkey]
  exact
    { covering := fun t hfirst ht last hlast ↦ covering_rows hmem hfirst ht hlast
      beforeFirst := fun t ht ↦ covering_rows_before hmem ht
      current := (current_rows hmem).1
      noCurrent := (current_rows hmem).2
      versions := versions_rows hmem }

/-- A shop that is repeated unchanged at the same instant, deleted, and opened again. -/
def reopenedShop : List (Scd2Event Unit Unit ℤ) :=
  let event (time : Timestamp) (operation : Operation) (id : Char) (value : Option ℤ) :
      Scd2Event Unit Unit ℤ :=
    { sourceKey := some 7
      attributes := ()
      attributeHash := ['h']
      type1 := fun _ ↦ value
      initialEffectiveFrom := some 5
      eventTime := time
      operation := operation
      historyEventId := [id]
      order := ⟨none, some 1, none, none, none, none⟩ }
  [event 30 .insert 'd' none, event 10 .insert 'a' (some 1), event 20 .delete 'c' none,
    event 10 .update 'b' none]

/-- Two versions, of which the first is closed by the delete, and the repetition starts none. -/
theorem isAsOfHistory_reopenedShop :
    ((replaySingleEntityScd2 SparkFunctions.plain reopenedShop).map fun row ↦
        (row.effectiveFrom, row.effectiveTo, row.isCurrent, row.isDeleted, row.type1 ())) =
      [(5, 20, false, true, some 1), (30, openEndedEffectiveTo, true, false, none)] ∧
    IsAsOfHistory reopenedShop (replaySingleEntityScd2 SparkFunctions.plain reopenedShop) :=
  ⟨by decide, isAsOfHistory_replaySingleEntityScd2 SparkFunctions.plain reopenedShop 7
    (by simp [reopenedShop]) fun _ he _ he' h ↦
      List.inj_on_of_nodup_map (f := fun e ↦ e.historyEventId) (by decide) he he' h⟩

end LakehousePipeline
