import LakehousePipeline.Silver.ChangeHistory
import LakehousePipeline.Library.Relational

/-!
# The SCD2 replay

`_replay_single_entity_scd2` turns the change history of the entities of one dimension into its
versions. All its windows are partitioned by the entity and ordered by `_event_order_columns`, so
the replay is written for one sorted partition (`replayPartition`) and applied to every partition of
the de-duplicated history.

An event carries the dimension columns (`attributes`), their hash, the Type-1 columns (indexed by
`κ`) and its place in the order. The technical columns `created_at` and `updated_at` hold the time
of the replay and are left out.

Event times are not null here: `_event_time` falls back to the `created_at` of the source row, which
the source declares `NOT NULL`. The same goes for `_history_event_id`, a hash.
-/

namespace LakehousePipeline

/-- A history event as the replay reads it. `A` is the type of the dimension columns, `κ` names the
Type-1 columns and `V` is the type of their values. -/
structure Scd2Event (A κ V : Type) where
  /-- The `source_key` column. -/
  sourceKey : Option ℤ
  /-- The dimension columns that are neither key nor Type 1. -/
  attributes : A
  /-- `attribute_hash`. -/
  attributeHash : Text
  /-- The Type-1 columns. -/
  type1 : κ → Option V
  /-- The `initial_effective_from` column. -/
  initialEffectiveFrom : Option Timestamp
  /-- `_event_time`. -/
  eventTime : Timestamp
  /-- `_operation`. -/
  operation : Operation
  /-- `_history_event_id`. -/
  historyEventId : Text
  /-- The remaining order columns. -/
  order : OrderFields

/-- A version of an SCD2 dimension, without `created_at` and `updated_at`. -/
structure Scd2Row (A κ V : Type) where
  /-- The `surrogate_key` column. -/
  surrogateKey : ℤ
  /-- The `source_key` column; null for the unknown member only. -/
  sourceKey : Option ℤ
  /-- The dimension columns that are neither key nor Type 1. -/
  attributes : A
  /-- `attribute_hash`. -/
  attributeHash : Option Text
  /-- The Type-1 columns. -/
  type1 : κ → Option V
  /-- `effective_from`. -/
  effectiveFrom : Timestamp
  /-- `effective_to`. -/
  effectiveTo : Timestamp
  /-- `is_current`. -/
  isCurrent : Bool
  /-- `is_deleted`. -/
  isDeleted : Bool

variable {A κ V : Type}

/-- The row's half-open range contains `t`. -/
def Scd2Row.Covers (row : Scd2Row A κ V) (t : Timestamp) : Prop :=
  row.effectiveFrom ≤ t ∧ t < row.effectiveTo

instance (row : Scd2Row A κ V) (t : Timestamp) : Decidable (row.Covers t) :=
  inferInstanceAs (Decidable (_ ∧ _))

/-- `9999-12-31`, the end of a version nothing has closed. -/
def openEndedEffectiveTo : Timestamp := 253402214400000000

/-! ### Keys -/

/-- `natural_hash`: null columns count as empty text. -/
def naturalHash (fns : SparkFunctions) (columns : List (Option Text)) : Text :=
  fns.sha256 (concatWs hashSeparator (columns.map fun c ↦ some (c.getD [])))

/-- `positive_hash_key`. -/
def positiveHashKey (fns : SparkFunctions) (value : Text) : ℤ :=
  fns.xxhash64 value % 9223372036854775807

/-- The surrogate key of a version: entity, start and attribute hash. -/
def scd2SurrogateKey (fns : SparkFunctions) (sourceKey : Option ℤ) (effectiveFrom : Timestamp)
    (attributeHash : Text) : ℤ :=
  positiveHashKey fns (concatWs hashSeparator
    [sourceKey.map fns.castInt, some (fns.castTimestamp effectiveFrom), some attributeHash])

/-! ### Order of events -/

/-- The sort key of an event. -/
def eventOrder (e : Scd2Event A κ V) : EventOrder :=
  toLex (e.eventTime, toLex (e.order.key, e.historyEventId))

/-- Events in the order of `_event_order_columns`. -/
def sortEvents (events : List (Scd2Event A κ V)) : List (Scd2Event A κ V) :=
  events.insertionSort fun a b ↦ eventOrder a ≤ eventOrder b

/-! ### Version starts -/

/-- `previous_non_delete_hash`, given the rows before the current one. -/
def previousNonDeleteHash (before : List (Scd2Event A κ V)) : Option Text :=
  Window.lastNonNull (fun e ↦ if e.operation ≠ .delete then some e.attributeHash else none) before

/-- `previous_operation`, given the rows before the current one. -/
def previousOperation (before : List (Scd2Event A κ V)) : Option Operation :=
  before.getLast?.map fun e ↦ e.operation

/-- `is_type2_start`. -/
def isType2Start (before : List (Scd2Event A κ V)) (e : Scd2Event A κ V) : Bool :=
  e.operation ≠ .delete ∧
    (previousNonDeleteHash before = none ∨ some e.attributeHash ≠ previousNonDeleteHash before ∨
      previousOperation before = some .delete)

/-- An event with `_is_type2_start` and `_version_number`. -/
structure NumberedEvent (A κ V : Type) where
  /-- The event. -/
  event : Scd2Event A κ V
  /-- `_is_type2_start`. -/
  isType2Start : Bool
  /-- `_version_number`. -/
  versionNumber : ℕ

/-- The flag and its running sum over a sorted partition. -/
def numberEvents (events : List (Scd2Event A κ V)) : List (NumberedEvent A κ V) :=
  Window.overRows (fun before e _ ↦
    { event := e
      isType2Start := isType2Start before e
      versionNumber := (Window.overRows (fun earlier x _ ↦ isType2Start earlier x)
        (before ++ [e])).count true }) events

/-! ### Type-1 values and boundaries -/

/-- `typed_events`: the events that belong to a version. -/
def typedEvents (numbered : List (NumberedEvent A κ V)) : List (NumberedEvent A κ V) :=
  numbered.filter fun n ↦ n.event.operation ≠ .delete ∧ 0 < n.versionNumber

/-- A Type-1 column over `version_window`: the last non-null value of the version. -/
def type1Value (typed : List (NumberedEvent A κ V)) (n : NumberedEvent A κ V) (column : κ) :
    Option V :=
  Window.lastNonNull (fun m ↦ m.event.type1 column)
    (typed.filter fun m ↦ m.versionNumber = n.versionNumber)

/-- A row of `boundaries`. -/
structure Boundary where
  /-- `_history_event_id`. -/
  historyEventId : Text
  /-- `_next_effective_to`. -/
  nextEffectiveTo : Option Timestamp
  /-- `_next_operation`. -/
  nextOperation : Option Operation
  deriving DecidableEq, Repr

/-- `boundaries`: version starts and deletes, each with the time and operation of the next. -/
def boundaries (numbered : List (NumberedEvent A κ V)) : List Boundary :=
  Window.overRows (fun _ n after ↦
    { historyEventId := n.event.historyEventId
      nextEffectiveTo := after.head?.map fun next ↦ next.event.eventTime
      nextOperation := after.head?.map fun next ↦ next.event.operation })
    (numbered.filter fun n ↦ n.isType2Start ∨ n.event.operation = .delete)

/-! ### The versions -/

/-- `effective_from`: the first version is pulled back to the business creation time, unless it
starts with a seed. -/
def effectiveFrom (e : Scd2Event A κ V) (versionNumber : ℕ) : Timestamp :=
  if e.operation = .seed then e.eventTime
  else if versionNumber = 1 then leastOf e.initialEffectiveFrom e.eventTime
  else e.eventTime

/-- The row of a version, from the event it starts with, the Type-1 values of the version and the
boundary that follows. -/
def scd2Row (fns : SparkFunctions) (e : Scd2Event A κ V) (versionNumber : ℕ)
    (type1 : κ → Option V) (nextEffectiveTo : Option Timestamp) (nextOperation : Option Operation) :
    Scd2Row A κ V where
  surrogateKey := scd2SurrogateKey fns e.sourceKey (effectiveFrom e versionNumber) e.attributeHash
  sourceKey := e.sourceKey
  attributes := e.attributes
  attributeHash := some e.attributeHash
  type1 := type1
  effectiveFrom := effectiveFrom e versionNumber
  effectiveTo := nextEffectiveTo.getD openEndedEffectiveTo
  isCurrent := nextEffectiveTo.isNone
  isDeleted := nextOperation = some .delete

/-- The replay of one entity's events, sorted. -/
def replayPartition (fns : SparkFunctions) (events : List (Scd2Event A κ V)) :
    List (Scd2Row A κ V) :=
  let numbered := numberEvents events
  let typed := typedEvents numbered
  (Relational.leftJoin (fun n b ↦ n.event.historyEventId = b.historyEventId)
    (typed.filter fun n ↦ n.isType2Start) (boundaries numbered)).map fun (n, b) ↦
      scd2Row fns n.event n.versionNumber (type1Value typed n) (b.bind fun b ↦ b.nextEffectiveTo)
        (b.bind fun b ↦ b.nextOperation)

/-- `_replay_single_entity_scd2`. -/
def replaySingleEntityScd2 (fns : SparkFunctions) (events : List (Scd2Event A κ V)) :
    List (Scd2Row A κ V) :=
  (Window.partitionBy (fun e ↦ e.sourceKey)
    (Relational.dropDuplicatesOn (fun e ↦ e.historyEventId)
      (events.filter fun e ↦ e.sourceKey.isSome))).flatMap fun p ↦
        replayPartition fns (sortEvents p)

/-! ### Sorted events -/

theorem sortEvents_perm (events : List (Scd2Event A κ V)) : (sortEvents events).Perm events :=
  List.perm_insertionSort _ _

@[simp] theorem mem_sortEvents {events : List (Scd2Event A κ V)} {e : Scd2Event A κ V} :
    e ∈ sortEvents events ↔ e ∈ events :=
  (sortEvents_perm events).mem_iff

theorem sortEvents_pairwise (events : List (Scd2Event A κ V)) :
    (sortEvents events).Pairwise fun a b ↦ eventOrder a ≤ eventOrder b :=
  List.pairwise_insertionSort _ _

/-- The event time is the first order column. -/
theorem eventTime_le_of_eventOrder_le {a b : Scd2Event A κ V} (h : eventOrder a ≤ eventOrder b) :
    a.eventTime ≤ b.eventTime := by
  rcases Prod.Lex.toLex_le_toLex.1 h with hlt | ⟨heq, -⟩
  · exact hlt.le
  · exact heq.le

theorem eventOrder_lt_of_eventTime_lt {a b : Scd2Event A κ V} (h : a.eventTime < b.eventTime) :
    eventOrder a < eventOrder b :=
  lt_of_not_ge fun hge ↦ absurd (eventTime_le_of_eventOrder_le hge) (not_le_of_gt h)

/-- The history event id is the last order column, so events that tie are copies. -/
theorem historyEventId_eq_of_eventOrder_eq {a b : Scd2Event A κ V}
    (h : eventOrder a = eventOrder b) : a.historyEventId = b.historyEventId := by
  have h2 := congrArg (fun p : EventOrder ↦ (ofLex (ofLex p).2).2) h
  exact h2

end LakehousePipeline
