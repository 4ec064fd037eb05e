import LakehousePipeline.Gold.Scd2Gate
import Mathlib.Data.Set.Finite.Lemmas

/-!
# A replay at an instant, entity by entity

`isAsOfHistory_replaySingleEntityScd2` speaks of the events of one entity. Here it is carried over
to one entity of a whole dimension, and completed by the instants before the entity first existed:
the only version that can cover such an instant is the first, and it does so exactly if it is pulled
back that far (`covering_before`).

## Reduction to one entity

`filter_replay_eq` says that the rows of an entity in a replay are the replay of its events. All
that is needed of the events is that those with one id are one event (`IdsApart`), which survives
any selection of them. `coveringRows_withUnknown` adds that the unknown member belongs to no entity,
so that the statements hold of a dimension as it is stored.

## What an instant sees

There are two ways to say which event an instant sees. `IsReplayedLast` follows the replay: the
last event of the sorted log at or before the instant. `IsLastAtOrBefore` speaks of the events as a
set. They are the same (`isReplayedLast_iff`), and for events of one time the order columns and the
id decide, which `orderAtTime` collects. Three cases then cover all instants of an entity:

* the last event is no delete, and one row of its version covers the instant
  (`covering_of_existing`);
* it is a delete, and no row does, unless the entity exists only later (`covering_of_deleted`);
* there is none yet, and only a first version that is pulled back covers the instant
  (`covering_before`).

The last two meet in `IsFirstExisting`: an entity whose log opens with deletes exists from its first
other event on, and it is that event's version the source pulls back.
-/

namespace LakehousePipeline

variable {A κ V : Type}

/-- The events of one entity. -/
def eventsOfKey (events : List (Scd2Event A κ V)) (k : ℤ) : List (Scd2Event A κ V) :=
  events.filter fun e ↦ e.sourceKey = some k

/-- Events with one id are one event. -/
def IdsApart (events : List (Scd2Event A κ V)) : Prop :=
  ∀ e ∈ events, ∀ e' ∈ events, e.historyEventId = e'.historyEventId → e = e'

/-- The first event that leaves the entity existing. -/
def IsFirstExisting (events : List (Scd2Event A κ V)) (e : Scd2Event A κ V) : Prop :=
  e ∈ events ∧ e.operation ≠ .delete ∧
    ∀ x ∈ events, x.operation ≠ .delete → eventOrder e ≤ eventOrder x

/-- The last event of an entity at or before `t` that the replay goes through. -/
def IsReplayedLast (events : List (Scd2Event A κ V)) (k : ℤ) (t : Timestamp)
    (e : Scd2Event A κ V) : Prop :=
  ((sortEvents (entityEvents events k)).filter fun x ↦ x.eventTime ≤ t).getLast? = some e

/-- The rows of one entity that cover an instant. -/
def coveringRows (rows : List (Scd2Row A κ V)) (k : ℤ) (t : Timestamp) : List (Scd2Row A κ V) :=
  rows.filter fun row ↦ row.sourceKey = some k ∧ row.Covers t

variable {fns : SparkFunctions} {events : List (Scd2Event A κ V)}

/-- The events of an entity are the events with its key. -/
theorem mem_eventsOfKey {k : ℤ} {e : Scd2Event A κ V} :
    e ∈ eventsOfKey events k ↔ e ∈ events ∧ e.sourceKey = some k := by
  rw [eventsOfKey, List.mem_filter, decide_eq_true_eq]

/-- Distinct ids keep events apart. -/
theorem idsApart_of_nodup (h : (events.map fun e ↦ e.historyEventId).Nodup) : IdsApart events :=
  fun _ he _ he' heq ↦ List.inj_on_of_nodup_map h he he' heq

/-- So do fewer events. -/
theorem IdsApart.mono {events' : List (Scd2Event A κ V)} (h : IdsApart events)
    (hsub : events' ⊆ events) : IdsApart events' :=
  fun e he e' he' ↦ h e (hsub he) e' (hsub he')

/-- In particular those of one entity. -/
theorem IdsApart.eventsOfKey (h : IdsApart events) (k : ℤ) : IdsApart (eventsOfKey events k) :=
  h.mono fun _ he ↦ (mem_eventsOfKey.1 he).1

/-- The log the replay goes through for an entity is that of its events. -/
theorem sortEvents_entityEvents (h : IdsApart events) (k : ℤ) :
    sortEvents (entityEvents events k) = historyLog (eventsOfKey events k) := by
  have hcopies : IdsApart (events.filter fun e ↦ e.sourceKey.isSome) :=
    h.mono fun _ he ↦ (List.mem_filter.1 he).1
  refine (log_entityEvents events k).2.eq_of_mem_iff (historyLog_pairwise _) fun {e} ↦ ?_
  rw [mem_sortEvents, mem_historyLog (h.eventsOfKey k), mem_eventsOfKey, entityEvents,
    List.mem_filter, Relational.mem_dropDuplicatesOn_iff hcopies, List.mem_filter,
    decide_eq_true_eq]
  refine and_congr_left fun hkey ↦ and_iff_left ?_
  rw [hkey]
  rfl

/-- **The rows of an entity are the replay of its events.** -/
theorem filter_replay_eq (h : IdsApart events) (k : ℤ) :
    ((replaySingleEntityScd2 fns events).filter fun row ↦ row.sourceKey = some k) =
      replaySingleEntityScd2 fns (eventsOfKey events k) := by
  rw [filter_replay, replaySingleEntityScd2_eq_versions fns fun e he ↦ (mem_eventsOfKey.1 he).2,
    ← sortEvents_entityEvents h]
  exact replayPartition_eq_versions fns (log_entityEvents events k).1

/-- A row of an entity is a row of the replay of its events. -/
theorem mem_replay_eventsOfKey (h : IdsApart events) {k : ℤ} {row : Scd2Row A κ V}
    (hrow : row ∈ replaySingleEntityScd2 fns events) (hkey : row.sourceKey = some k) :
    row ∈ replaySingleEntityScd2 fns (eventsOfKey events k) := by
  rw [← filter_replay_eq h]
  exact List.mem_filter.2 ⟨hrow, decide_eq_true hkey⟩

/-- The same events have the same replay. -/
theorem replay_congr {events' : List (Scd2Event A κ V)} {k : ℤ} (hids : IdsApart events)
    (hkey : ∀ e ∈ events, e.sourceKey = some k) (hmem : ∀ e, e ∈ events ↔ e ∈ events') :
    replaySingleEntityScd2 fns events = replaySingleEntityScd2 fns events' := by
  have hids' : IdsApart events' := hids.mono fun e he ↦ (hmem e).2 he
  have hlog : historyLog events = historyLog events' :=
    (historyLog_pairwise events).eq_of_mem_iff (historyLog_pairwise events') fun {e} ↦ by
      rw [mem_historyLog hids, mem_historyLog hids', hmem]
  rw [replaySingleEntityScd2_eq_versions fns hkey,
    replaySingleEntityScd2_eq_versions fns fun e he ↦ hkey e ((hmem e).2 he), hlog]

/-- A row of the replay of an entity has the attributes of an event. -/
theorem exists_event_of_mem_replay {k : ℤ} (hids : IdsApart events)
    (hkey : ∀ e ∈ events, e.sourceKey = some k) {row : Scd2Row A κ V}
    (hrow : row ∈ replaySingleEntityScd2 fns events) :
    ∃ e ∈ events, row.attributes = e.attributes := by
  rw [replaySingleEntityScd2_eq_versions fns hkey] at hrow
  obtain ⟨i, hi, rfl⟩ := List.mem_mapIdx.1 hrow
  exact ⟨_, (mem_historyLog hids).1 (Timeline.start_mem_of_mem (List.getElem_mem hi)).1, rfl⟩

/-- The last event the replay goes through at or before `t`. -/
theorem isReplayedLast_iff (h : IdsApart events) {k : ℤ} {t : Timestamp} {e : Scd2Event A κ V} :
    IsReplayedLast events k t e ↔ IsLastAtOrBefore (eventsOfKey events k) t e := by
  have hsorted := (historyLog_pairwise (eventsOfKey events k)).sublist
    (List.filter_sublist (p := fun x ↦ decide (x.eventTime ≤ t)))
  have hmem : ∀ x, x ∈ (historyLog (eventsOfKey events k)).filter (fun x ↦ x.eventTime ≤ t) ↔
      x ∈ eventsOfKey events k ∧ x.eventTime ≤ t := fun x ↦ by
    rw [List.mem_filter, mem_historyLog (h.eventsOfKey k), decide_eq_true_eq]
  rw [IsReplayedLast, sortEvents_entityEvents h]
  constructor
  · intro hlast
    obtain ⟨hin, hle⟩ := (hmem e).1 (List.mem_of_getLast? hlast)
    obtain ⟨pre, hpre⟩ := List.getLast?_eq_some_iff.1 hlast
    rw [hpre, List.pairwise_append] at hsorted
    refine ⟨hin, hle, fun x hx hxt ↦ ?_⟩
    have hx := (hmem x).2 ⟨hx, hxt⟩
    rw [hpre, List.mem_append, List.mem_singleton] at hx
    rcases hx with hx | rfl
    · exact (hsorted.2.2 x hx e (List.mem_singleton.2 rfl)).le
    · exact le_rfl
  · rintro ⟨hin, hle, hmax⟩
    refine Timeline.getLast?_eq_some_of_max hsorted ((hmem e).2 ⟨hin, hle⟩) fun x hx ↦ ?_
    exact hmax x ((hmem x).1 hx).1 ((hmem x).1 hx).2

/-- The last of the events at or before an instant. -/
theorem exists_isLastAtOrBefore {t : Timestamp} {x : Scd2Event A κ V} (hx : x ∈ events)
    (hxt : x.eventTime ≤ t) : ∃ last, IsLastAtOrBefore events t last := by
  have hfinite : {e | e ∈ events ∧ e.eventTime ≤ t}.Finite :=
    (List.finite_toSet events).subset fun e he ↦ he.1
  obtain ⟨last, ⟨hin, hle⟩, hmax⟩ :=
    Set.exists_max_image _ (fun e ↦ eventOrder e) hfinite ⟨x, hx, hxt⟩
  exact ⟨last, hin, hle, fun y hy hyt ↦ hmax y ⟨hy, hyt⟩⟩

/-- From its first event on, an entity has a last event at every instant. -/
theorem exists_isReplayedLast (h : IdsApart events) {k : ℤ} {t : Timestamp} {x : Scd2Event A κ V}
    (hx : x ∈ eventsOfKey events k) (hxt : x.eventTime ≤ t) : ∃ e, IsReplayedLast events k t e := by
  obtain ⟨last, hlast⟩ := exists_isLastAtOrBefore hx hxt
  exact ⟨last, (isReplayedLast_iff h).2 hlast⟩

/-- Events of one time are ordered by the order columns and the id. -/
def orderAtTime (e : Scd2Event A κ V) : OrderKey ×ₗ Text :=
  toLex (e.order.key, e.historyEventId)

/-- At one time the order of events is that of `orderAtTime`. -/
theorem eventOrder_le_iff {a b : Scd2Event A κ V} (h : a.eventTime = b.eventTime) :
    eventOrder a ≤ eventOrder b ↔ orderAtTime a ≤ orderAtTime b := by
  rw [eventOrder, eventOrder, h, Prod.Lex.toLex_le_toLex]
  refine ⟨?_, fun hle ↦ Or.inr ⟨rfl, hle⟩⟩
  rintro (hlt | ⟨-, hle⟩)
  · exact absurd hlt (lt_irrefl _)
  · exact hle

/-- At the time of an event the replay goes last through one that is not before it. -/
theorem exists_isReplayedLast_eventTime (h : IdsApart events) {k : ℤ} {x : Scd2Event A κ V}
    (hx : x ∈ eventsOfKey events k) : ∃ e, IsReplayedLast events k x.eventTime e ∧
      e.eventTime = x.eventTime ∧ orderAtTime x ≤ orderAtTime e := by
  obtain ⟨e, he⟩ := exists_isReplayedLast h hx le_rfl
  obtain ⟨-, hle, hmax⟩ := (isReplayedLast_iff h).1 he
  have hxe := hmax x hx le_rfl
  have htime : e.eventTime = x.eventTime := le_antisymm hle (eventTime_le_of_eventOrder_le hxe)
  exact ⟨e, he, htime, (eventOrder_le_iff htime.symm).1 hxe⟩

/-- An event of the time of the last one that is not before it is the last one. -/
theorem IsLastAtOrBefore.eq_of_orderAtTime_le (h : IdsApart events) {t : Timestamp}
    {e x : Scd2Event A κ V} (hlast : IsLastAtOrBefore events t e) (hx : x ∈ events)
    (htime : x.eventTime = e.eventTime) (hle : orderAtTime e ≤ orderAtTime x) : e = x := by
  obtain ⟨he, het, hmax⟩ := hlast
  refine h e he x hx (historyEventId_eq_of_eventOrder_eq (le_antisymm ?_ ?_))
  · exact (eventOrder_le_iff htime.symm).2 hle
  · exact hmax x hx (htime.le.trans het)

/-- The unknown member belongs to no entity. -/
theorem filter_withUnknown (h : IdsApart events) (includeUnknown : Bool) (unknown : A) (k : ℤ)
    (q : Scd2Row A κ V → Prop) [DecidablePred q] :
    ((withUnknown includeUnknown unknown (replaySingleEntityScd2 fns events)).filter
        fun row ↦ row.sourceKey = some k ∧ q row) =
      (replaySingleEntityScd2 fns (eventsOfKey events k)).filter fun row ↦ q row := by
  have hrows :
      ((replaySingleEntityScd2 fns events).filter fun row ↦ row.sourceKey = some k ∧ q row) =
      (replaySingleEntityScd2 fns (eventsOfKey events k)).filter fun row ↦ q row := by
    rw [← filter_replay_eq h, List.filter_filter]
    exact List.filter_congr fun row _ ↦ by rw [Bool.decide_and, Bool.and_comm]
  rcases includeUnknown with - | -
  · exact hrows
  · exact hrows

/-- The unknown member covers no instant of an entity. -/
theorem coveringRows_withUnknown (h : IdsApart events) (includeUnknown : Bool) (unknown : A) (k : ℤ)
    (t : Timestamp) :
    coveringRows (withUnknown includeUnknown unknown (replaySingleEntityScd2 fns events)) k t =
      (replaySingleEntityScd2 fns (eventsOfKey events k)).filter fun row ↦ row.Covers t :=
  filter_withUnknown h includeUnknown unknown k fun row ↦ row.Covers t

/-- The first existing event is found in the log. -/
theorem find?_historyLog_iff (h : IdsApart events) {e : Scd2Event A κ V} :
    ((historyLog events).find? fun x ↦ entityState x ≠ none) = some e ↔
      IsFirstExisting events e := by
  rw [Timeline.find?_eq_some_iff_of_sorted (historyLog_pairwise events)]
  simp only [mem_historyLog h, ne_eq, entityState_eq_none, decide_not, Bool.not_eq_eq_eq_not,
    Bool.not_true, decide_eq_false_iff_not, Bool.not_false, decide_eq_true_eq]
  refine and_congr_right fun _ ↦ and_congr_right fun _ ↦ forall₂_congr fun x _ ↦ ?_
  rw [← not_lt, not_imp_not]

/-- An entity that ever existed has a first existing event. -/
theorem exists_isFirstExisting (h : IdsApart events) {x : Scd2Event A κ V} (hx : x ∈ events)
    (hop : x.operation ≠ .delete) : ∃ e, IsFirstExisting events e := by
  have hsome : ((historyLog events).find? fun x ↦ entityState x ≠ none).isSome = true := by
    rw [List.find?_isSome]
    exact ⟨x, (mem_historyLog h).2 hx, by simpa using hop⟩
  obtain ⟨e, he⟩ := Option.isSome_iff_exists.1 hsome
  exact ⟨e, (find?_historyLog_iff h).1 he⟩

/-- An event belongs to one version. -/
theorem versionStart_unique (h : IdsApart events) {s s' e : Scd2Event A κ V}
    (hs : IsVersionStart events s) (hs' : IsVersionStart events s') (he : IsVersionEvent events s e)
    (he' : IsVersionEvent events s' e) : s = s' := by
  have hmem : ∀ {x : Scd2Event A κ V}, x ∈ historyLog events ↔ x ∈ events := mem_historyLog h
  have hsorted := historyLog_pairwise events
  -- a start in the middle of a version would follow an event in the same state
  have hno : ∀ {s s' : Scd2Event A κ V}, s ∈ events → IsVersionStart events s' →
      IsVersionEvent events s e → IsVersionEvent events s' e →
        ¬eventOrder s < eventOrder s' := by
    intro s s' hs hs' he he' hlt
    obtain ⟨pre, post, hlog⟩ := List.append_of_mem (hmem.2 hs'.1)
    have hpre : s ∈ pre := by
      have hin := hmem.2 hs
      rw [hlog, List.mem_append, List.mem_cons] at hin
      rw [hlog, List.pairwise_append, List.pairwise_cons] at hsorted
      rcases hin with hpre | rfl | hpost
      · exact hpre
      · exact absurd hlt (lt_irrefl _)
      · exact absurd hlt (hsorted.2.1.1 s hpost).not_gt
    obtain ⟨init, p, rfl⟩ : ∃ init p, pre = init ++ [p] := by
      rcases List.eq_nil_or_concat pre with rfl | ⟨init, p, rfl⟩
      · cases hpre
      · exact ⟨init, p, List.concat_eq_append⟩
    rw [hlog, List.pairwise_append, List.pairwise_append] at hsorted
    have hp : p ∈ events := hmem.1 (by simp [hlog])
    have hps : eventOrder p < eventOrder s' := hsorted.2.2 p (by simp) s' List.mem_cons_self
    have hsp : eventOrder s ≤ eventOrder p := by
      rcases List.mem_append.1 hpre with hinit | hpre
      · exact (hsorted.1.2.2 s hinit p List.mem_cons_self).le
      · rw [List.mem_singleton.1 hpre]
    have hstate := he.2.2 p hp hsp (hps.le.trans he'.2.1)
    have hstate' := he.2.2 s' hs'.1 hlt.le he'.2.1
    refine hs'.2.2 p hp hps (fun x hx hxs ↦ ?_) (hstate.trans hstate'.symm)
    have hin := hmem.2 hx
    rw [hlog, List.mem_append, List.mem_append, List.mem_singleton, List.mem_cons] at hin
    rcases hin with (hinit | rfl) | rfl | hpost
    · exact (hsorted.1.2.2 x hinit p List.mem_cons_self).le
    · exact le_rfl
    · exact absurd hxs (lt_irrefl _)
    · exact absurd hxs ((List.pairwise_cons.1 hsorted.2.1).1 x hpost).not_gt
  have horder : eventOrder s = eventOrder s' :=
    le_antisymm (not_lt.1 (hno hs'.1 hs he' he)) (not_lt.1 (hno hs.1 hs' he he'))
  exact h s hs.1 s' hs'.1 (historyEventId_eq_of_eventOrder_eq horder)

/-! ### One entity -/

section Entity

variable {k : ℤ} (hkey : ∀ e ∈ events, e.sourceKey = some k) (hids : IdsApart events)
  {t : Timestamp} (ht : t < openEndedEffectiveTo)

include hkey hids

/-- An entity that only ever was deleted has no rows. -/
theorem replay_eq_nil (hdel : ∀ e ∈ events, e.operation = .delete) :
    replaySingleEntityScd2 fns events = [] := by
  rw [replaySingleEntityScd2_eq_versions fns hkey]
  rcases hvs : Timeline.versions entityState (historyLog events) with - | ⟨v, rest⟩
  · rfl
  · have hv : v ∈ Timeline.versions entityState (historyLog events) := by simp [hvs]
    obtain ⟨hmem, hstate⟩ := Timeline.start_mem_of_mem hv
    rw [mem_historyLog hids] at hmem
    exact absurd (entityState_eq_none.2 (hdel _ hmem)) hstate

include ht

/-- **Before the entity first existed**: the first version, if it is pulled back that far. -/
theorem covering_before {e : Scd2Event A κ V} (hfirst : IsFirstExisting events e)
    (hte : t < e.eventTime) :
    (effectiveFrom e 1 ≤ t →
      ∃ row, ((replaySingleEntityScd2 fns events).filter fun row ↦ row.Covers t) = [row] ∧
        row.attributes = e.attributes ∧ row.attributeHash = some e.attributeHash) ∧
    (t < effectiveFrom e 1 →
      ((replaySingleEntityScd2 fns events).filter fun row ↦ row.Covers t) = []) := by
  have hmem : ∀ {x : Scd2Event A κ V}, x ∈ historyLog events ↔ x ∈ events := mem_historyLog hids
  have hsorted := historyLog_pairwise events
  -- the first version starts with `e`
  have hhead : ((Timeline.versions entityState (historyLog events)).head?.map fun v ↦ v.start) =
      some e := by
    rw [Timeline.head?_versions_map_start, find?_historyLog_iff hids]
    exact hfirst
  rw [replaySingleEntityScd2_eq_versions fns hkey]
  rcases hvs : Timeline.versions entityState (historyLog events) with - | ⟨v, rest⟩
  · rw [hvs] at hhead
    cases hhead
  rw [hvs] at hhead
  obtain rfl : v.start = e := Option.some.inj hhead
  have hlater : ((rest.mapIdx fun i w ↦ versionRow fns (i + 1 + 1) w).filter
      fun row ↦ row.Covers t) = [] := by
    refine List.filter_eq_nil_iff.2 fun row hrow hcov ↦ ?_
    obtain ⟨i, hi, rfl⟩ := List.mem_mapIdx.1 hrow
    have hw : rest[i] ∈ Timeline.versions entityState (historyLog events) := by simp [hvs]
    obtain ⟨hstart, hstate⟩ := Timeline.start_mem_of_mem hw
    have hle : effectiveFrom rest[i].start (i + 1 + 1) ≤ t := (of_decide_eq_true hcov).1
    rw [effectiveFrom_of_ne_one _ (by omega)] at hle
    have hev := eventTime_le_of_eventOrder_le
      (hfirst.2.2 _ (hmem.1 hstart) fun hdel ↦ hstate (entityState_eq_none.2 hdel))
    exact absurd (hev.trans hle) hte.not_ge
  have hto : t < (versionRow fns 1 v).effectiveTo := by
    show t < (v.closedBy.map fun e ↦ e.eventTime).getD openEndedEffectiveTo
    have hv : v ∈ Timeline.versions entityState (historyLog events) := by simp [hvs]
    rcases hc : v.closedBy with - | c
    · exact ht
    · have hclose := ((Timeline.closedBy_eq_some_iff hsorted hv).1 hc).2.1
      exact hte.trans_le (eventTime_le_of_eventOrder_le hclose.le)
  have hrows : ((v :: rest).mapIdx fun i v ↦ versionRow fns (i + 1) v) = versionRow fns 1 v ::
      rest.mapIdx fun i w ↦ versionRow fns (i + 1 + 1) w := by
    rw [List.mapIdx_cons]
  have hcov : (versionRow fns 1 v).Covers t ↔ effectiveFrom v.start 1 ≤ t := and_iff_left hto
  rw [hrows]
  refine ⟨fun hle ↦ ⟨versionRow fns 1 v, ?_, rfl, rfl⟩, fun hlt ↦ ?_⟩
  · rw [List.filter_cons_of_pos (by simpa [hcov] using hle), hlater]
  · rw [List.filter_cons_of_neg (by simpa [hcov] using hlt), hlater]

/-- Before the entity first existed no row covers an instant, unless the first version is pulled
back that far. -/
theorem covering_before_eq_nil_iff
    (hbefore : ∀ x ∈ events, x.operation ≠ .delete → t < x.eventTime) :
    ((replaySingleEntityScd2 fns events).filter fun row ↦ row.Covers t) = [] ↔
      ∀ e, IsFirstExisting events e → t < effectiveFrom e 1 := by
  constructor
  · intro hnil e he
    by_contra hge
    obtain ⟨row, hrow, -⟩ :=
      (covering_before hkey hids ht he (hbefore e he.1 he.2.1)).1 (not_lt.1 hge)
    rw [hnil] at hrow
    cases hrow
  · intro hno
    by_cases hany : ∃ e ∈ events, e.operation ≠ .delete
    · obtain ⟨x, hx, hxop⟩ := hany
      obtain ⟨e, he⟩ := exists_isFirstExisting hids hx hxop
      exact (covering_before hkey hids ht he (hbefore e he.1 he.2.1)).2 (hno e he)
    · have hall : ∀ e ∈ events, e.operation = .delete := fun e he ↦ by
        by_contra hne
        exact hany ⟨e, he, hne⟩
      rw [replay_eq_nil hkey hids hall]
      rfl

/-- **The last event is no delete**: one row, of the version the event belongs to. -/
theorem covering_of_existing {last : Scd2Event A κ V} (hlast : IsLastAtOrBefore events t last)
    (hop : last.operation ≠ .delete) :
    ∃ row s, ((replaySingleEntityScd2 fns events).filter fun row ↦ row.Covers t) = [row] ∧
      IsVersionStart events s ∧ IsVersionEvent events s last ∧ row.attributes = s.attributes ∧
        row.attributeHash = some last.attributeHash := by
  obtain ⟨row, s, hrow, hstart, hversion, hattributes, hhash⟩ :=
    covering_of_isLastAtOrBefore hkey hids ht hlast hop
  have hs : IsVersionStart events s :=
    (isVersionStart_iff (fun _ ↦ mem_historyLog hids) (historyLog_pairwise events) s).2 hstart
  refine ⟨row, s, hrow, hs, hversion, hattributes, ?_⟩
  have hsame := hversion.2.2 last hlast.1 hversion.2.1 le_rfl
  rw [entityState_of_ne hop, entityState_of_ne hs.2.1] at hsame
  rw [hhash, hsame]

/-- **The last event is a delete**: no row, unless the entity exists only later and its first
version is pulled back. -/
theorem covering_of_deleted {last : Scd2Event A κ V} (hlast : IsLastAtOrBefore events t last)
    (hop : last.operation = .delete) :
    ((replaySingleEntityScd2 fns events).filter fun row ↦ row.Covers t) = [] ↔
      ∀ e, IsFirstExisting events e → t < e.eventTime → t < effectiveFrom e 1 := by
  by_cases hexists : ∃ first ∈ events, first.operation ≠ .delete ∧ first.eventTime ≤ t
  · refine iff_of_true (((isAsOfHistory_replaySingleEntityScd2 fns events k hkey hids).covering t
      hexists ht last hlast).1 hop) fun e he hte ↦ ?_
    obtain ⟨first, hfirst, hfop, hle⟩ := hexists
    have hev := eventTime_le_of_eventOrder_le (he.2.2 first hfirst hfop)
    exact absurd (hev.trans hle) hte.not_ge
  · have hbefore : ∀ x ∈ events, x.operation ≠ .delete → t < x.eventTime := fun x hx hxop ↦
      lt_of_not_ge fun hle ↦ hexists ⟨x, hx, hxop, hle⟩
    rw [covering_before_eq_nil_iff hkey hids ht hbefore]
    exact ⟨fun hno e he _ ↦ hno e he, fun hno e he ↦ hno e he (hbefore e he.1 he.2.1)⟩

variable (fns) in
/-- Where no event happens, what covers an instant at which the entity existed covers the next
ones. -/
theorem covering_unchanged {u : Timestamp} (hut : u ≤ t)
    (hexisted : ∃ x ∈ events, x.operation ≠ .delete ∧ x.eventTime ≤ u)
    (hno : ∀ x ∈ events, x.eventTime ≤ t → x.eventTime ≤ u) :
    ((replaySingleEntityScd2 fns events).filter fun row ↦ row.Covers t).map
      (fun row ↦ row.attributes) =
      ((replaySingleEntityScd2 fns events).filter fun row ↦ row.Covers u).map
        (fun row ↦ row.attributes) := by
  obtain ⟨x, hx, hxop, hxu⟩ := hexisted
  obtain ⟨last, hlast⟩ := exists_isLastAtOrBefore hx hxu
  have hlast' : IsLastAtOrBefore events t last :=
    ⟨hlast.1, hlast.2.1.trans hut, fun y hy hyt ↦ hlast.2.2 y hy (hno y hy hyt)⟩
  by_cases hop : last.operation = .delete
  · -- the entity has existed before both instants
    have hafter : ∀ {t : Timestamp}, u ≤ t → ∀ e, IsFirstExisting events e → t < e.eventTime →
        t < effectiveFrom e 1 := fun hut e he hte ↦ by
      have hev := eventTime_le_of_eventOrder_le (he.2.2 x hx hxop)
      exact absurd (hev.trans (hxu.trans hut)) hte.not_ge
    rw [(covering_of_deleted hkey hids ht hlast' hop).2 (hafter hut),
      (covering_of_deleted hkey hids (hut.trans_lt ht) hlast hop).2 (hafter le_rfl)]
  · obtain ⟨row, s, hrow, hs, hversion, hattributes, -⟩ :=
      covering_of_existing hkey hids ht hlast' hop
    obtain ⟨row', s', hrow', hs', hversion', hattributes', -⟩ :=
      covering_of_existing hkey hids (hut.trans_lt ht) hlast hop
    obtain rfl := versionStart_unique hids hs hs' hversion hversion'
    rw [hrow, hrow', List.map_singleton, List.map_singleton, hattributes, hattributes']

omit ht in
/-- **The current row** is that of the last event. -/
theorem current_of_isLastEvent {last : Scd2Event A κ V} (hlast : IsLastEvent events last) :
    (last.operation = .delete →
      ((replaySingleEntityScd2 fns events).filter fun row ↦ row.isCurrent) = []) ∧
    (last.operation ≠ .delete →
      ∃ row, ((replaySingleEntityScd2 fns events).filter fun row ↦ row.isCurrent) = [row] ∧
        row.attributeHash = some last.attributeHash) := by
  have hmem : ∀ {x : Scd2Event A κ V}, x ∈ historyLog events ↔ x ∈ events := mem_historyLog hids
  have hstate : Timeline.lastState entityState none (historyLog events) = entityState last := by
    rw [Timeline.lastState, Timeline.getLast?_eq_some_of_max (historyLog_pairwise events)
      (hmem.2 hlast.1) fun x hx ↦ hlast.2 x (hmem.1 hx)]
    rfl
  obtain ⟨hnone, hone⟩ := Timeline.open_versions_eq entityState (historyLog events)
  have hselect := filter_isCurrent_rows fns (Timeline.versions entityState (historyLog events))
  rw [hstate] at hnone hone
  rw [replaySingleEntityScd2_eq_versions fns hkey]
  refine ⟨fun hdel ↦ hselect.1 (hnone (entityState_eq_none.2 hdel)), fun hop ↦ ?_⟩
  obtain ⟨v, hv, hsame⟩ := hone (by simpa using hop)
  obtain ⟨i, hrow⟩ := hselect.2 v hv
  refine ⟨_, hrow, ?_⟩
  have hstart : v.start.operation ≠ .delete := fun hdel ↦
    hop (entityState_eq_none.1 (hsame ▸ entityState_eq_none.2 hdel))
  rw [entityState_of_ne hstart, entityState_of_ne hop] at hsame
  exact hsame

end Entity

end LakehousePipeline
