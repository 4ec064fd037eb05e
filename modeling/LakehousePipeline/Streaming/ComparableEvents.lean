import LakehousePipeline.Streaming.CdcDecoder

/-!
# Which CDC events count

Silver merges an event only if its sequence is above that of the row its key has. The sequence of a
CDC event starts with the time of its envelope, and `normalize_debezium_events` and the decoder take
an event whose envelope has none. In every comparison it comes after all others, and no alert says
so. Its batch counterpart, `collect_change_event_stats`, raises on an event without a time.

Among events of one time the place in the log of the source decides before the Kafka offset. So an
event that is later in its partition, but not in time, takes effect exactly if that place, or its
Kafka offset where the envelope has none, is not below the one Silver compares it with
(`comparable_iff`).

## With what an event is compared

An event is merged if it comes first among the events of its key in its micro-batch and is above the
row its key has. `comparedRows` collects these rows, and each of them was made of an event: one that
has been merged or one of the same micro-batch (`exists_rival`). A row has the order columns of its
event even where a CDC delete has kept the business columns of the row before, which is what
`StampedAs` says.

For two events of which one is later in its partition and not earlier in time, the columns are
compared one by one (`sequence_lt_iff`). The time decides if it differs. Otherwise CDC is above
Batch, and between two CDC events the place in the log comes next. Only if both have the same place
do the partition and the offset decide, and those are in order.

## From messages to events

The columns of an event are read out of the message: the time from `ts_ms` of the envelope, the
place from the position the envelope gives, or the Kafka offset (`exists_bronzeEvent`). An accepted
message always has a place, but need not have a time.
-/

namespace LakehousePipeline

open MergeInto Runs

section Comparable

variable {K P : Type} [DecidableEq K] [DecidableEq P]

/-! ### What is compared -/

/-- The row has the order columns of the event. -/
structure StampedAs (row : SilverRow K P) (x : BronzeEvent K P) : Prop where
  mode : row.ingestionMode = x.ingestionMode
  columns : row.sequenceColumns = x.sequenceColumns

/-- An event is later in its Kafka partition than another one, and not earlier in time. Batch events
are in no partition. -/
structure LaterThan (e x : BronzeEvent K P) : Prop where
  offset : x.isStreamingCdc = true → x.kafkaPartition = e.kafkaPartition ∧
    ∃ before ∈ x.kafkaOffset, ∃ after ∈ e.kafkaOffset, before < after
  time : ∀ earlier ∈ x.eventOccurredAt, ∃ later ∈ e.eventOccurredAt, earlier ≤ later

instance (e x : BronzeEvent K P) : Decidable (LaterThan e x) :=
  decidable_of_iff
    ((x.isStreamingCdc = true → x.kafkaPartition = e.kafkaPartition ∧
      ∃ before ∈ x.kafkaOffset, ∃ after ∈ e.kafkaOffset, before < after) ∧
      ∀ earlier ∈ x.eventOccurredAt, ∃ later ∈ e.eventOccurredAt, earlier ≤ later)
    ⟨fun h ↦ ⟨h.1, h.2⟩, fun h ↦ ⟨h.offset, h.time⟩⟩

/-- The events of the key that have been merged, and the others in the micro-batch. -/
def rivals (pieces : List (SilverPiece K P)) (events : List (BronzeEvent K P))
    (e : BronzeEvent K P) : List (BronzeEvent K P) :=
  eventsOfPieces e.key pieces ++ (eventsOf e.key events).filter fun x ↦ x ≠ e

variable (fns : SparkFunctions) (clean : P → P)

/-- The rows the sequence of an event is compared with: the one its key has, and those of the other
events of the key in the micro-batch. -/
def comparedRows (table : List (SilverRow K P)) (events : List (BronzeEvent K P))
    (e : BronzeEvent K P) : List (SilverRow K P) :=
  (lookup (fun row ↦ row.key) e.key table).toList ++
    ((eventsOf e.key events).filter fun x ↦ x ≠ e).map (mergedRow fns clean)

/-- **No CDC row of the same time has a later place in the source.** -/
def NoLaterSource (e : BronzeEvent K P) (row : SilverRow K P) : Prop :=
  row.ingestionMode = .cdc → row.eventOccurredAt = e.eventOccurredAt →
    ∀ held ∈ row.sourceEventSequence, ∃ new ∈ e.sourceEventSequence, held ≤ new

instance (e : BronzeEvent K P) (row : SilverRow K P) : Decidable (NoLaterSource e row) :=
  inferInstanceAs (Decidable (_ = _ → _ = _ → ∀ _ ∈ _, ∃ _ ∈ _, _ ≤ _))

/-- **The event takes effect**: the micro-batch is merged with it as the change of its key, and the
key has its row afterwards, or has no row if it deletes what was not there. -/
def TakesEffect (table : List (SilverRow K P)) (events : List (BronzeEvent K P))
    (e : BronzeEvent K P) : Prop :=
  lookup (fun row ↦ row.key) e.key (transformTable fns clean events) =
    some (mergedRow fns clean e) ∧
    ∃ table', mergePiece fns clean table (.cdc events) = some table' ∧
      ((∃ row, lookup (fun row ↦ row.key) e.key table' = some row ∧ Carries clean row e) ∨
        e.operation = .delete ∧ lookup (fun row ↦ row.key) e.key table = none ∧
          lookup (fun row ↦ row.key) e.key table' = none)

variable {fns clean} {table table' : List (SilverRow K P)} {pieces : List (SilverPiece K P)}
  {events : List (BronzeEvent K P)} {e x : BronzeEvent K P} {row : SilverRow K P}

omit [DecidableEq K] [DecidableEq P] in
/-- Null is below every value. -/
theorem descNullsLast_le_iff {a b : Option ℤ} :
    descNullsLast a ≤ descNullsLast b ↔ ∀ x ∈ a, ∃ y ∈ b, x ≤ y := by
  rcases a with - | a
  · exact iff_of_true bot_le nofun
  · rcases b with - | b
    · refine iff_of_false (WithBot.not_coe_le_bot a) fun h ↦ ?_
      obtain ⟨y, hy, -⟩ := h a rfl
      cases hy
    · have hcoe : descNullsLast (some a) ≤ descNullsLast (some b) ↔ a ≤ b := WithBot.coe_le_coe
      rw [hcoe]
      simp

omit [DecidableEq K] [DecidableEq P] in
/-- A CDC event has priority over a Batch event of its time, and a later offset in its partition. -/
theorem LaterThan.columns (h : LaterThan e x) (hcdc : e.isStreamingCdc = true) :
    x.ingestionMode = .batch ∧ x.ingestionPriority < e.ingestionPriority ∨
      x.ingestionMode = .cdc ∧ x.ingestionPriority = e.ingestionPriority ∧
        descNullsLast x.sourceEventSubsequence < descNullsLast e.sourceEventSubsequence := by
  have hmode : e.ingestionMode = .cdc := by
    rw [BronzeEvent.ingestionMode, hcdc]
    rfl
  rcases hx : x.isStreamingCdc with - | -
  · have hbatch : x.ingestionMode = .batch := by
      rw [BronzeEvent.ingestionMode, hx]
      rfl
    refine Or.inl ⟨hbatch, ?_⟩
    rw [BronzeEvent.ingestionPriority, BronzeEvent.ingestionPriority, hmode, hbatch]
    decide
  · have hcdc : x.ingestionMode = .cdc := by
      rw [BronzeEvent.ingestionMode, hx]
      rfl
    obtain ⟨-, before, hbefore, after, hafter, hlt⟩ := h.offset hx
    refine Or.inr ⟨hcdc, by rw [BronzeEvent.ingestionPriority, BronzeEvent.ingestionPriority, hcdc,
      hmode], ?_⟩
    rw [BronzeEvent.sourceEventSubsequence, BronzeEvent.sourceEventSubsequence, hcdc, hmode,
      Option.mem_def.1 hbefore, Option.mem_def.1 hafter]
    exact WithBot.coe_lt_coe.2 hlt

omit [DecidableEq K] [DecidableEq P] in
/-- No other event has the sequence of one that is later in its partition. -/
theorem sequence_ne (hrow : StampedAs row x) (hcdc : e.isStreamingCdc = true)
    (hlater : LaterThan e x) : row.sequence ≠ e.sequence := by
  intro heq
  rw [SilverRow.sequence, hrow.columns] at heq
  obtain ⟨-, heq⟩ := List.cons.inj heq
  obtain ⟨hpriority, heq⟩ := List.cons.inj heq
  obtain ⟨-, heq⟩ := List.cons.inj heq
  obtain ⟨hsubsequence, -⟩ := List.cons.inj heq
  rcases hlater.columns hcdc with ⟨-, hlt⟩ | ⟨-, -, hlt⟩
  · exact hlt.ne (WithBot.coe_inj.1 hpriority)
  · exact hlt.ne hsubsequence

omit [DecidableEq K] [DecidableEq P] in
/-- **Which of two sequences is below the other**: later in the partition and not in time, an event
is above all but the CDC rows of its time with a later place in the source. -/
theorem sequence_lt_iff (hrow : StampedAs row x) (hcdc : e.isStreamingCdc = true)
    (hlater : LaterThan e x) : row.sequence < e.sequence ↔ NoLaterSource e row := by
  obtain ⟨htimes, hcolumns⟩ := List.cons.inj hrow.columns
  obtain ⟨-, hcolumns⟩ := List.cons.inj hcolumns
  obtain ⟨hsources, -⟩ := List.cons.inj hcolumns
  have htime := descNullsLast_le_iff.2 hlater.time
  have hkeys : row.sequence < e.sequence ↔
      descNullsLast x.eventOccurredAt < descNullsLast e.eventOccurredAt ∨
      descNullsLast x.eventOccurredAt = descNullsLast e.eventOccurredAt ∧
        (x.ingestionPriority < e.ingestionPriority ∨ x.ingestionPriority = e.ingestionPriority ∧
          (descNullsLast x.sourceEventSequence < descNullsLast e.sourceEventSequence ∨
            descNullsLast x.sourceEventSequence = descNullsLast e.sourceEventSequence ∧
              descNullsLast x.sourceEventSubsequence <
                descNullsLast e.sourceEventSubsequence)) := by
    rw [SilverRow.sequence, hrow.columns]
    show [_, _, _, _] < [_, _, _, _] ↔ _
    simp only [List.cons_lt_cons_iff, List.not_lt_nil, and_false, or_false]
    exact or_congr_right (and_congr_right fun _ ↦
      or_congr WithBot.coe_lt_coe (and_congr_left fun _ ↦ WithBot.coe_inj))
  rw [hkeys, NoLaterSource, hrow.mode, htimes, hsources, ← descNullsLast_le_iff]
  rcases hlater.columns hcdc with ⟨hbatch, hpriority⟩ | ⟨hmode, hpriority, hoffset⟩
  · refine iff_of_true (htime.lt_or_eq.imp_right fun heq ↦ ⟨heq, Or.inl hpriority⟩) fun hmode ↦ ?_
    rw [hbatch] at hmode
    cases hmode
  · refine ⟨fun hlt _ heq ↦ ?_, fun h ↦ htime.lt_or_eq.imp_right fun heq ↦
      ⟨heq, Or.inr ⟨hpriority, ?_⟩⟩⟩
    · rw [heq] at hlt
      obtain ⟨-, hbelow | ⟨-, hsource⟩⟩ := hlt.resolve_left (lt_irrefl _)
      · exact absurd hpriority hbelow.ne
      · exact hsource.elim le_of_lt fun h ↦ h.1.le
    · exact (h hmode heq).lt_or_eq.imp_right fun heq ↦ ⟨heq, hoffset⟩

/-! ### Where the rows come from -/

omit [DecidableEq K] [DecidableEq P] in
/-- The row that is made of an event has its order columns. -/
theorem stampedAs_mergedRow (x : BronzeEvent K P) : StampedAs (mergedRow fns clean x) x :=
  ⟨rfl, rfl⟩

omit [DecidableEq K] [DecidableEq P] in
/-- A merge leaves the row of a key, or one with the order columns of its change. -/
theorem mergeSilverRow_cases {isCdc : Bool} {held source : Option (SilverRow K P)}
    (h : mergeSilverRow isCdc held source = some row) :
    held = some row ∨ ∃ s, source = some s ∧ row.ingestionMode = s.ingestionMode ∧
      row.sequenceColumns = s.sequenceColumns := by
  rcases source with - | s
  · rcases held with - | t
    · cases h
    · exact Or.inl h
  · refine or_iff_not_imp_left.2 fun hne ↦ ⟨s, rfl, ?_⟩
    rcases held with - | t
    · obtain ⟨-, h⟩ := Option.ite_none_left_eq_some.1 h
      obtain rfl := Option.some.inj h
      exact ⟨rfl, rfl⟩
    · rcases lt_or_ge t.sequence s.sequence with hlt | hge
      · rw [mergeSilverRow_of_lt hlt] at h
        split at h
        · obtain rfl := Option.some.inj h
          exact ⟨rfl, rfl⟩
        · obtain rfl := Option.some.inj h
          exact ⟨rfl, rfl⟩
      · rw [mergeSilverRow_of_ge hge] at h
        exact absurd h hne

/-- **Each row of Silver has the order columns of an event of its key.** -/
theorem exists_stampedAs_of_run (hrun : run (mergePiece fns clean) [] pieces = some table) {k : K}
    (hrow : lookup (fun row ↦ row.key) k table = some row) :
    ∃ x ∈ eventsOfPieces k pieces, StampedAs row x := by
  have hinv : (table.map fun row ↦ row.key).Nodup ∧ ∀ k row,
      lookup (fun row ↦ row.key) k table = some row →
        ∃ x ∈ eventsOfPieces k pieces, StampedAs row x := by
    have halong : Along (mergePiece fns clean) (fun _ piece ↦ piece ∈ pieces) [] pieces :=
      along_of_forall (fun _ hpiece _ ↦ hpiece) []
    refine run_invariant (fun reached ↦ (reached.map fun row ↦ row.key).Nodup ∧
      ∀ k row, lookup (fun row ↦ row.key) k reached = some row →
        ∃ x ∈ eventsOfPieces k pieces, StampedAs row x) ?_ ⟨nodup_key_nil, fun k row h ↦ by cases h⟩
      halong hrun
    rintro reached piece next ⟨hnodup, hstamped⟩ hpiece hmerge
    obtain ⟨next', hmerge', hnodup', hlookup⟩ := lookup_mergePiece fns clean hnodup piece
    obtain rfl := Option.some.inj (hmerge'.symm.trans hmerge)
    refine ⟨hnodup', fun k row h ↦ ?_⟩
    rw [hlookup] at h
    rcases mergeSilverRow_cases h with hheld | ⟨s, hs, hmode, hcolumns⟩
    · exact hstamped k row hheld
    · rcases lookup_transformTable fns clean piece.events k with ⟨hnone, -⟩ | ⟨x, hx, hk, -, hsome⟩
      · rw [hnone] at hs
        cases hs
      · obtain rfl := Option.some.inj (hsome.symm.trans hs)
        exact ⟨x, mem_eventsOfPieces.2 ⟨piece, hpiece, hx, hk⟩, hmode, hcolumns⟩
  exact hinv.2 k row hrow

/-! ### What takes effect -/

/-- The compared rows are of the rivals. -/
theorem exists_rival (hrun : run (mergePiece fns clean) [] pieces = some table)
    (hrow : row ∈ comparedRows fns clean table events e) :
    ∃ x ∈ rivals pieces events e, StampedAs row x := by
  rcases List.mem_append.1 hrow with hheld | hother
  · obtain ⟨x, hx, hstamped⟩ := exists_stampedAs_of_run hrun (Option.mem_toList.1 hheld)
    exact ⟨x, List.mem_append_left _ hx, hstamped⟩
  · obtain ⟨x, hx, rfl⟩ := List.mem_map.1 hother
    exact ⟨x, List.mem_append_right _ hx, stampedAs_mergedRow x⟩

/-- **An event takes effect exactly if it is above what it is compared with.** -/
theorem takesEffect_iff (hrun : run (mergePiece fns clean) [] pieces = some table) (he : e ∈ events)
    (hne : ∀ row ∈ comparedRows fns clean table events e, row.sequence ≠ e.sequence) :
    TakesEffect fns clean table events e ↔
      ∀ row ∈ comparedRows fns clean table events e, row.sequence < e.sequence := by
  have hkeys := (run_mergePiece_mono nodup_key_nil hrun).1
  obtain ⟨table', hmerge, -, hlookup⟩ := lookup_mergePiece fns clean hkeys (.cdc events)
  have hlookup := hlookup e.key
  rcases lookup_transformTable fns clean events e.key with ⟨-, hno⟩ | ⟨x, hx, hxk, hnewest, hsource⟩
  · exact absurd rfl (hno e he)
  constructor
  · rintro ⟨hmerged, table₁, hmerge₁, heffect⟩ row hrow
    obtain rfl := Option.some.inj (hmerge.symm.trans hmerge₁)
    refine lt_of_le_of_ne ?_ (hne row hrow)
    rcases List.mem_append.1 hrow with hheld | hother
    · -- the row of the key only gives way to one that is not below it
      have hheld := Option.mem_toList.1 hheld
      obtain ⟨t', ht', hle⟩ := (mergePiece_mono hkeys hmerge).2 e.key row hheld
      rcases heffect with ⟨row', hrow', hcarries⟩ | ⟨-, hnone, -⟩
      · obtain rfl := Option.some.inj (ht'.symm.trans hrow')
        exact hle.trans hcarries.sequence.le
      · rw [hheld] at hnone
        cases hnone
    · obtain ⟨y, hy, rfl⟩ := List.mem_map.1 hother
      obtain ⟨hin, hyk⟩ := mem_eventsOf.1 (List.mem_filter.1 hy).1
      have hsame := congrArg SilverRow.sequence (Option.some.inj (hsource.symm.trans hmerged))
      rw [sequence_mergedRow, sequence_mergedRow] at hsame
      exact (hnewest y hin hyk).trans hsame.le
  · intro hbelow
    -- `e` is the newest of the micro-batch: another would be above it
    obtain rfl : x = e := by
      by_contra hother
      refine absurd (hnewest e he rfl) (hbelow (mergedRow fns clean x) ?_).not_ge
      exact List.mem_append_right _ (List.mem_map_of_mem
        (List.mem_filter.2 ⟨mem_eventsOf.2 ⟨hx, hxk⟩, decide_eq_true hother⟩))
    refine ⟨hsource, table', hmerge, ?_⟩
    rw [show SilverPiece.events (.cdc events) = events from rfl, hsource] at hlookup
    -- no row of the key: a delete of it leaves none, any other event a new row
    rcases hheld : lookup (fun row ↦ row.key) x.key table with - | t
    · rw [hheld] at hlookup
      rcases Decidable.em (x.operation = .delete) with hdelete | hrecorded
      · refine Or.inr ⟨hdelete, hheld, hlookup.trans (if_pos ?_)⟩
        exact decide_eq_true hdelete
      · refine Or.inl
          ⟨mergedRow fns clean x, hlookup.trans (if_neg ?_), carries_mergedRow fns clean x⟩
        exact fun hdeleted ↦ hrecorded (of_decide_eq_true hdeleted)
    · have hlt := hbelow t (List.mem_append_left _ (Option.mem_toList.2 hheld))
      rw [hheld, mergeSilverRow_of_lt hlt] at hlookup
      have htk : t.key = x.key := (mem_of_lookup hheld).2
      split at hlookup
      · rename_i hsoft
        refine Or.inl ⟨_, hlookup, htk, rfl, decide_eq_true_iff, fun hop ↦ ?_⟩
        exact absurd (of_decide_eq_true (Bool.and_eq_true_iff.1 hsoft).2) hop
      · exact Or.inl ⟨_, hlookup, rfl, rfl, decide_eq_true_iff, fun _ ↦ rfl⟩

/-- **An event without a time is ignored** once its key has a row with one. -/
theorem not_takesEffect_of_noTime (hrun : run (mergePiece fns clean) [] pieces = some table)
    (hheld : lookup (fun row ↦ row.key) e.key table = some row)
    (hrow : row.eventOccurredAt.isSome = true) (hnone : e.eventOccurredAt = none) :
    ¬TakesEffect fns clean table events e := by
  rintro ⟨-, table', hmerge, heffect⟩
  have hkeys := (run_mergePiece_mono nodup_key_nil hrun).1
  obtain ⟨row', hrow', hle⟩ := (mergePiece_mono hkeys hmerge).2 e.key row hheld
  rcases heffect with ⟨row₁, hrow₁, hcarries⟩ | ⟨-, hno, -⟩
  · obtain rfl := Option.some.inj (hrow'.symm.trans hrow₁)
    obtain ⟨time, htime⟩ := Option.isSome_iff_exists.1 hrow
    have hlt : e.sequence < row.sequence := by
      show [descNullsLast e.eventOccurredAt, _, _, _] < [descNullsLast row.eventOccurredAt, _, _, _]
      rw [hnone, htime]
      exact List.cons_lt_cons_iff.2 (Or.inl (WithBot.bot_lt_coe time))
    exact absurd (hle.trans hcarries.sequence.le) hlt.not_ge
  · rw [hheld] at hno
    cases hno

/-! ### Raw events -/

variable {readers : CdcReaders} {sourceId : Option Text} {ingestedAt : Timestamp}
  {message : KafkaMessage}

variable (fns readers sourceId ingestedAt message) in
/-- The typed row of a message. -/
def typedRowOf {C : Type} (settings : SilverStreamSettings) (contract : TypedCdcContract C)
    (batchId : ℕ) : TypedCdcRow C :=
  decodeTableEvent fns settings contract batchId (prepareRawCdcEvents fns readers
    (normalizeDebeziumEvents fns readers sourceId ingestedAt message))

omit [DecidableEq K] [DecidableEq P] in
variable (fns readers sourceId ingestedAt message) in
/-- The event of an accepted message: its time is that of the envelope, its place in the source is
the one in the envelope, or its offset. -/
theorem exists_bronzeEvent (settings : SilverStreamSettings)
    (contract : TypedCdcContract (BusinessRow K P)) (batchId : ℕ)
    (haccepted : (prepareRawCdcEvents fns readers
      (normalizeDebeziumEvents fns readers sourceId ingestedAt message)).decodeError = none) :
    ∃ e, (typedRowOf fns readers sourceId ingestedAt message settings contract
        batchId).bronzeEvent = some e ∧
      e.isStreamingCdc = true ∧ e.sourceEventSequence.isSome = true ∧
        e.eventOccurredAt = ((message.value.bind readers.envelope).bind fun envelope ↦
          envelope.tsMs).map timestampMillis := by
  obtain ⟨⟨op, hop, hoperation⟩, -⟩ :=
    IsNormalized.of_isValid ⟨sourceId, ingestedAt, message, rfl⟩ (decodeError_eq_none.1 haccepted).1
  obtain ⟨operation, hoperation⟩ : ∃ operation, (typedRowOf fns readers sourceId ingestedAt message
      settings contract batchId).operation = some operation := by
    have hdecoded := decodeOperation_of_valid op hop
    show ∃ operation, decodeOperation (normalizeDebeziumEvents fns readers sourceId ingestedAt
      message).event.operation = some operation
    rw [hoperation]
    generalize decodeOperation (some op) = decoded at hdecoded ⊢
    rcases decoded with - | operation
    · exact absurd hdecoded (by decide)
    · exact ⟨operation, rfl⟩
  refine ⟨_, Option.map_eq_some_iff.2 ⟨operation, hoperation, rfl⟩, rfl, ?_, rfl⟩
  show (Option.or _ (some _)).isSome = true
  rw [Option.isSome_or, Option.isSome_some, Bool.or_true]

variable (fns clean readers sourceId ingestedAt message) in
/-- **Which accepted events count.** An accepted event has a time exactly if its envelope has one,
and always a place in the source. Later in its partition than what Silver has merged for its key,
and not earlier in time, it takes effect in a state of Silver exactly if no CDC row of its time that
it is compared with has a later place in the source. -/
theorem comparable_iff (settings : SilverStreamSettings)
    (contract : TypedCdcContract (BusinessRow K P))
    (batchId : ℕ) (haccepted : (prepareRawCdcEvents fns readers
      (normalizeDebeziumEvents fns readers sourceId ingestedAt message)).decodeError = none) :
    ∃ e, (typedRowOf fns readers sourceId ingestedAt message settings contract
        batchId).bronzeEvent = some e ∧
      ∀ pieces table events, run (mergePiece fns clean) [] pieces = some table → e ∈ events →
        (e.eventOccurredAt.isSome = true ∧ e.sourceEventSequence.isSome = true ∧
            ((∀ x ∈ rivals pieces events e, LaterThan e x) → TakesEffect fns clean table events e) ↔
          ((message.value.bind readers.envelope).bind fun envelope ↦ envelope.tsMs).isSome = true ∧
            ((∀ x ∈ rivals pieces events e, LaterThan e x) →
              ∀ row ∈ comparedRows fns clean table events e, NoLaterSource e row)) := by
  obtain ⟨e, hevent, hcdc, hsource, htime⟩ :=
    exists_bronzeEvent fns readers sourceId ingestedAt message settings contract batchId haccepted
  refine ⟨e, hevent, fun pieces table events hrun he ↦ ?_⟩
  have heffect : (∀ x ∈ rivals pieces events e, LaterThan e x) →
      (TakesEffect fns clean table events e ↔
        ∀ row ∈ comparedRows fns clean table events e, NoLaterSource e row) := by
    intro hlater
    have hrival : ∀ row ∈ comparedRows fns clean table events e,
        ∃ x, LaterThan e x ∧ StampedAs row x := fun row hrow ↦ by
      obtain ⟨x, hx, hstamped⟩ := exists_rival hrun hrow
      exact ⟨x, hlater x hx, hstamped⟩
    rw [takesEffect_iff hrun he fun row hrow ↦ ?_]
    · refine forall₂_congr fun row hrow ↦ ?_
      obtain ⟨x, hx, hstamped⟩ := hrival row hrow
      exact sequence_lt_iff hstamped hcdc hx
    · obtain ⟨x, hx, hstamped⟩ := hrival row hrow
      exact sequence_ne hstamped hcdc hx
  rw [htime, Option.isSome_map]
  exact ⟨fun ⟨hsome, _, htakes⟩ ↦ ⟨hsome, fun hlater ↦ (heffect hlater).1 (htakes hlater)⟩,
    fun ⟨hsome, hno⟩ ↦ ⟨hsome, hsource, fun hlater ↦ (heffect hlater).2 (hno hlater)⟩⟩

end Comparable

/-! ### An envelope without a time -/

/-- The row image of a shop. -/
def shopImage : Text :=
  "\x7b\"shop_id\":7\x7d".toList

/-- The value of its insert. -/
def shopInsertJson : Text :=
  "\x7b\"op\":\"c\",\"ts_ms\":5,".toList
    ++ "\"source\":\x7b\"schema\":\"s\",\"table\":\"shops\",\"lsn\":7\x7d,".toList
    ++ "\"after\":".toList ++ shopImage ++ "\x7d".toList

/-- The value of an update of the same time. -/
def shopRenameJson : Text :=
  "\x7b\"op\":\"u\",\"ts_ms\":5,".toList
    ++ "\"source\":\x7b\"schema\":\"s\",\"table\":\"shops\",\"lsn\":8\x7d,".toList
    ++ "\"after\":".toList ++ shopImage ++ "\x7d".toList

/-- The value of an update, without `ts_ms`. -/
def shopUpdateJson : Text :=
  "\x7b\"op\":\"u\",\"source\":\x7b\"schema\":\"s\",\"table\":\"shops\",\"lsn\":8\x7d,".toList
    ++ "\"after\":".toList ++ shopImage ++ "\x7d".toList

/-- The source of the events. -/
def shopSource (lsn : ℤ) : DebeziumSource :=
  ⟨some ['s'], some SilverTable.shops.name, some lsn, none, none, none⟩

/-- What `get_json_object` finds in the values. -/
def shopFunctions : SparkFunctions :=
  { SparkFunctions.plain with
    getJsonObject := fun json field ↦
      if json ∈ [shopInsertJson, shopRenameJson, shopUpdateJson] ∧ field = "after".toList then
        some shopImage
      else none }

/-- What Spark reads in them. -/
def shopReaders : CdcReaders :=
  { itemReaders with
    envelope := fun json ↦
      if json = shopInsertJson then some ⟨some ['c'], some 5, some (shopSource 7), none⟩
      else if json = shopRenameJson then some ⟨some ['u'], some 5, some (shopSource 8), none⟩
      else if json = shopUpdateJson then some ⟨some ['u'], none, some (shopSource 8), none⟩
      else some ⟨none, none, none, none⟩
    payloadMap := fun json ↦
      if json = shopImage then some [("shop_id".toList, some ['7'])] else none }

/-- Shops by their id. -/
def shopContract : TypedCdcContract (BusinessRow ℤ Unit) where
  typedPayload _ payload :=
    ⟨(((payload.elementAt "shop_id".toList).bind digitsToInt).getD 0), 0, ()⟩
  recordJson _ := []

/-- The event of a message about the shop. -/
def bronzeShopEvent (offset : ℤ) (json : Text) : Option (BronzeEvent ℤ Unit) :=
  (typedRowOf shopFunctions shopReaders none 0 ⟨['t'], 0, offset, some json⟩ plainSettings
    shopContract 0).bronzeEvent

/-- **After the insert has been merged, an update of its time takes effect**: its place in the log
of the source is the later one. -/
theorem comparable_iff_shopRename : ∃ held e table,
    bronzeShopEvent 0 shopInsertJson = some held ∧ bronzeShopEvent 1 shopRenameJson = some e ∧
      run (mergePiece shopFunctions id) [] [.cdc [held]] = some table ∧
      (∃ row ∈ comparedRows shopFunctions id table [e] e,
        row.eventOccurredAt = e.eventOccurredAt) ∧
      e.eventOccurredAt.isSome = true ∧ e.sourceEventSequence.isSome = true ∧
      TakesEffect shopFunctions id table [e] e := by
  have hfound : (bronzeShopEvent 0 shopInsertJson).any (fun held : BronzeEvent ℤ Unit ↦
      (bronzeShopEvent 1 shopRenameJson).any fun e : BronzeEvent ℤ Unit ↦
        (run (mergePiece shopFunctions id) [] [.cdc [held]]).any fun table ↦ decide (
          (∃ row ∈ comparedRows shopFunctions id table [e] e,
            row.eventOccurredAt = e.eventOccurredAt) ∧
          (∀ x ∈ rivals [.cdc [held]] [e] e, LaterThan e x) ∧
          ∀ row ∈ comparedRows shopFunctions id table [e] e, NoLaterSource e row)) = true := by
    decide +kernel
  obtain ⟨held, hheld, hfound⟩ := (Option.any_eq_true _ _).1 hfound
  obtain ⟨e, he, hfound⟩ := (Option.any_eq_true _ _).1 hfound
  obtain ⟨table, htable, hfound⟩ := (Option.any_eq_true _ _).1 hfound
  obtain ⟨hsame, hlater, hsources⟩ := of_decide_eq_true hfound
  obtain ⟨e', he', hiff⟩ := comparable_iff shopFunctions id shopReaders none 0
    ⟨['t'], 0, 1, some shopRenameJson⟩ plainSettings shopContract 0 (by decide +kernel)
  obtain rfl := Option.some.inj (he.symm.trans he')
  obtain ⟨htime, hsource, htakes⟩ :=
    (hiff [.cdc [held]] table [e] htable (List.mem_singleton_self e)).2
      ⟨by decide +kernel, fun _ ↦ hsources⟩
  exact ⟨held, e, table, hheld, he, htable, hsame, htime, hsource, htakes hlater⟩

/-- **The update is accepted without a time.** -/
theorem not_comparable_shopUpdate : ¬∀ message : KafkaMessage,
    (prepareRawCdcEvents shopFunctions shopReaders
      (normalizeDebeziumEvents shopFunctions shopReaders none 0 message)).decodeError = none →
    ∀ e, (typedRowOf shopFunctions shopReaders none 0 message plainSettings shopContract
        0).bronzeEvent = some e →
      e.eventOccurredAt.isSome = true ∧ e.sourceEventSequence.isSome = true ∧
        ∀ pieces table events, run (mergePiece shopFunctions id) [] pieces = some table →
          e ∈ events → (∀ x ∈ rivals pieces events e, LaterThan e x) →
            TakesEffect shopFunctions id table events e := by
  intro h
  have hevent : (typedRowOf shopFunctions shopReaders none 0 ⟨['t'], 0, 1, some shopUpdateJson⟩
      plainSettings shopContract 0).bronzeEvent.any (fun e ↦ e.eventOccurredAt.isNone) = true := by
    decide +kernel
  obtain ⟨e, he, hnone⟩ := (Option.any_eq_true _ _).1 hevent
  have htime := (h ⟨['t'], 0, 1, some shopUpdateJson⟩ (by decide +kernel) e he).1
  rw [Option.isNone_iff_eq_none.1 hnone] at htime
  cases htime

end LakehousePipeline
