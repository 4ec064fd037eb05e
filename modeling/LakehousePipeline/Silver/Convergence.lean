import LakehousePipeline.Library.LastWriterWins
import LakehousePipeline.Silver.CurrentState
import Mathlib.Data.List.TakeWhile

/-!
# Convergence of Unified Silver

Batch increments and CDC micro-batches are merged into the same Silver table, guarded by the
sequence of the row each key holds. Seen from one key, a merge is a step on the row the key holds
(`lookup_mergePiece`), and the row carries one event: a last-writer-wins register over the events
merged so far (`carries_mergePieces`).

The register differs from the plain one in a single case. The CDC merge does not insert tombstones:
a micro-batch whose newest event of a key is a delete leaves no trace when Silver holds no row for
the key. So what decides is the newest event among the *recorded* pieces, those from the first one
on that leaves the key a row (`recordedPieces`). Among them the arrival order does not matter, and
where the newest event of all is no delete, or the first piece with the key leaves it a row, they
hold the newest event of all.

## From a merge to a register

1. A merge acts on the row of each key alone, and `mergeSilverRow` is what it does there
   (`lookup_mergePiece`). The source of the merge has one row for each key, the newest event of the
   piece.
2. A row that is held carries an event: its sequence and its deletion flag, and its payload unless
   it is deleted (`Carries`). The CDC merge keeps the payload of a row it marks as deleted, so the
   payload of a tombstone says nothing.
3. Under this reading `mergeSilverRow` is a write to a register (`holds_mergeSilverRow`), and a run
   of merges is a fold of writes (`holds_mergePieces`).

Once a key holds an event the register is the plain one (`heldEvent_some`), so the pieces before the
first that leaves a row are dropped and all others count (`heldEvent_none`).
-/

namespace LakehousePipeline

variable {K P : Type} [DecidableEq K]

/-- A set of Bronze events that is merged at once. -/
inductive SilverPiece (K P : Type)
  /-- A Batch increment (`SilverBuilder.run_table`). -/
  | batch (events : List (BronzeEvent K P))
  /-- A CDC micro-batch (`UnifiedSilverMaterializer._merge_table`). -/
  | cdc (events : List (BronzeEvent K P))

/-- The events of a piece. -/
def SilverPiece.events : SilverPiece K P → List (BronzeEvent K P)
  | .batch events => events
  | .cdc events => events

/-- Whether the piece is merged with `preserve_target_on_soft_delete`. -/
def SilverPiece.isCdc : SilverPiece K P → Bool
  | .batch _ => false
  | .cdc _ => true

/-! ### The merge -/

section Merge

variable [DecidableEq P] (fns : SparkFunctions) (clean : P → P)

/-- The columns of a Silver table; the compared ones are all but the key and `created_at`. -/
def silverColumns : TableColumns (SilverRow K P) K where
  key row := row.key
  sameCompared target source :=
    { target with key := source.key, createdAt := source.createdAt } = source
  update target source := { source with createdAt := target.createdAt }
  updateMetadata target source :=
    { source with key := target.key, createdAt := target.createdAt, payload := target.payload }
  isDeleted row := row.isDeleted
  sequence := some fun row ↦ row.sequenceColumns
  key_update _ _ _ := rfl
  key_updateMetadata _ _ := rfl

/-- The arguments of the two Silver merges. -/
def silverOptions (preserveTargetOnSoftDelete : Bool) : UpsertOptions K :=
  { UpsertOptions.default K with
    sourceIsNonempty := true
    preserveTargetOnSoftDelete := preserveTargetOnSoftDelete }

/-- One piece merged into an existing Silver table. -/
def mergePiece (table : List (SilverRow K P)) (piece : SilverPiece K P) :
    Option (List (SilverRow K P)) :=
  (upsertTable silverColumns (silverOptions piece.isCdc) (some table)
    (transformTable fns clean piece.events)).map fun result ↦ result.rows

/-- Pieces merged one after the other. -/
def mergePieces (table : List (SilverRow K P)) (pieces : List (SilverPiece K P)) :
    Option (List (SilverRow K P)) :=
  pieces.foldlM (mergePiece fns clean) table

/-- The row a reader sees: `read_table` hides tombstones. -/
def visibleRow (table : List (SilverRow K P)) (k : K) : Option (SilverRow K P) :=
  table.find? fun row ↦ row.key = k ∧ row.isDeleted = false

/-! ### One key -/

/-- What a merge does to the row of a key: the CDC merge marks a row deleted without touching its
business columns, and inserts no tombstone. -/
def mergeSilverRow (isCdc : Bool) : Option (SilverRow K P) → Option (SilverRow K P) →
    Option (SilverRow K P)
  | held, none => held
  | none, some s => if isCdc && s.isDeleted then none else some s
  | some t, some s =>
    if t.sequence < s.sequence then
      if isCdc && s.isDeleted then
        some { s with key := t.key, createdAt := t.createdAt, payload := t.payload }
      else some { s with createdAt := t.createdAt }
    else some t

omit [DecidableEq K] [DecidableEq P] in
/-- A newer row replaces the one that is held. -/
theorem mergeSilverRow_of_lt {isCdc : Bool} {t s : SilverRow K P} (h : t.sequence < s.sequence) :
    mergeSilverRow isCdc (some t) (some s) =
      if isCdc && s.isDeleted then
        some { s with key := t.key, createdAt := t.createdAt, payload := t.payload }
      else some { s with createdAt := t.createdAt } :=
  if_pos h

omit [DecidableEq K] [DecidableEq P] in
/-- Any other is dropped. -/
theorem mergeSilverRow_of_ge {isCdc : Bool} {t s : SilverRow K P} (h : s.sequence ≤ t.sequence) :
    mergeSilverRow isCdc (some t) (some s) = some t :=
  if_neg h.not_gt

/-- The clauses of the merge, on one key. -/
theorem mergeKey_upsertMerge (isCdc : Bool) (held source : Option (SilverRow K P)) :
    (upsertMerge silverColumns (silverOptions isCdc)).mergeKey held (source.map .row) =
      mergeSilverRow isCdc held source := by
  cases source with
  | none => cases held <;> rfl
  | some s =>
    cases held with
    | none => cases isCdc <;> cases hdel : s.isDeleted <;> simp [MergeInto.Merge.mergeKey,
        upsertMerge, silverOptions, UpsertOptions.default, isWritten, silverColumns, mergeSilverRow,
        hdel]
    | some t =>
      have hnewer : isNewer silverColumns t (.row s) = decide (t.sequence < s.sequence) := by
        rw [Bool.eq_iff_iff, decide_eq_true_iff]
        exact lexicographicNewer_iff rfl
      have hsame : t.sequence < s.sequence → silverColumns.sameCompared t s = false := by
        intro hlt
        refine decide_eq_false fun heq ↦ hlt.ne ?_
        rw [← heq]
        rfl
      show (upsertMerge _ _).applyMatched t (.row s) = _
      rw [applyMatched_row, hnewer]
      rcases lt_or_ge t.sequence s.sequence with hlt | hge
      · rw [hsame hlt, mergeSilverRow_of_lt hlt, decide_eq_true hlt]
        cases isCdc <;> cases hdel : s.isDeleted <;>
          simp [silverOptions, isWritten, silverColumns, hdel, UpsertOptions.default]
      · simp [mergeSilverRow_of_ge hge, hge.not_gt]

/-- **A merge acts on the row of each key alone.** -/
theorem lookup_mergePiece {table : List (SilverRow K P)}
    (hkeys : (table.map fun row ↦ row.key).Nodup) (piece : SilverPiece K P) :
    ∃ table', mergePiece fns clean table piece = some table' ∧
      (table'.map fun row ↦ row.key).Nodup ∧
      ∀ k, MergeInto.lookup (fun row ↦ row.key) k table' =
        mergeSilverRow piece.isCdc (MergeInto.lookup (fun row ↦ row.key) k table)
          (MergeInto.lookup (fun row ↦ row.key) k (transformTable fns clean piece.events)) := by
  set source := transformTable fns clean piece.events with hsource
  have hchanges : upsertChanges (silverOptions piece.isCdc) source =
      (source.map .row : List (Change (SilverRow K P) K)) :=
    List.append_nil _
  have hnodup : ((source.map .row).map (Change.key (silverColumns (K := K) (P := P)))).Nodup := by
    rw [List.map_map]
    exact nodup_key_transformTable fns clean piece.events
  obtain ⟨table', hexec, hkeys', hlookup⟩ := MergeInto.execute_spec
    (keyed_upsertMerge silverColumns (silverOptions piece.isCdc)) hkeys hnodup
  refine ⟨table', ?_, hkeys', fun k ↦ ?_⟩
  · rw [mergePiece, ← hsource, upsertTable]
    show Option.map _ (Option.map _ ((upsertMerge silverColumns _).execute table _)) = _
    rw [hchanges, hexec]
    rfl
  · rw [← mergeKey_upsertMerge]
    exact (hlookup k).trans (by rw [lookup_map_row]; rfl)

omit [DecidableEq K] [DecidableEq P] in
/-- The row of a key stays, and its sequence is only raised. -/
theorem mergeSilverRow_mono (isCdc : Bool) (t : SilverRow K P) (source : Option (SilverRow K P)) :
    ∃ t', mergeSilverRow isCdc (some t) source = some t' ∧ t.sequence ≤ t'.sequence := by
  rcases source with - | s
  · exact ⟨t, rfl, le_rfl⟩
  · rcases lt_or_ge t.sequence s.sequence with hlt | hge
    · rw [mergeSilverRow_of_lt hlt]
      split
      · exact ⟨_, rfl, hlt.le⟩
      · exact ⟨_, rfl, hlt.le⟩
    · exact ⟨t, mergeSilverRow_of_ge hge, le_rfl⟩

variable {fns clean} in
/-- **A merge forgets no key**, and takes none back. -/
theorem mergePiece_mono {table table' : List (SilverRow K P)} {piece : SilverPiece K P}
    (hkeys : (table.map fun row ↦ row.key).Nodup)
    (hmerge : mergePiece fns clean table piece = some table') :
    (table'.map fun row ↦ row.key).Nodup ∧ ∀ k row,
      MergeInto.lookup (fun row ↦ row.key) k table = some row →
        ∃ row', MergeInto.lookup (fun row ↦ row.key) k table' = some row' ∧
          row.sequence ≤ row'.sequence := by
  obtain ⟨next, hnext, hkeys', hlookup⟩ := lookup_mergePiece fns clean hkeys piece
  obtain rfl : next = table' := Option.some.inj (hnext.symm.trans hmerge)
  refine ⟨hkeys', fun k row h ↦ ?_⟩
  obtain ⟨row', hrow', hle⟩ := mergeSilverRow_mono piece.isCdc row
    (MergeInto.lookup (fun row ↦ row.key) k (transformTable fns clean piece.events))
  exact ⟨row', by rw [hlookup, h, hrow'], hle⟩

/-! ### The register of a key -/

/-- The row carries an event: its sequence, its deletion flag and, unless deleted, its payload. -/
structure Carries (row : SilverRow K P) (e : BronzeEvent K P) : Prop where
  key : row.key = e.key
  sequence : row.sequence = e.sequence
  isDeleted : row.isDeleted = true ↔ e.operation = .delete
  payload : e.operation ≠ .delete → row.payload = clean e.payload

omit [DecidableEq K] [DecidableEq P] in
/-- The row that is made of an event carries it. -/
theorem carries_mergedRow (e : BronzeEvent K P) : Carries clean (mergedRow fns clean e) e where
  key := rfl
  sequence := rfl
  isDeleted := decide_eq_true_iff
  payload _ := rfl

/-- What a key holds: no row, or a row that carries an event. -/
def Holds : Option (SilverRow K P) → Option (BronzeEvent K P) → Prop
  | none, none => True
  | some row, some e => Carries clean row e
  | _, _ => False

/-- The event a key holds after one more event, the newest of a piece. -/
def writeEvent (isCdc : Bool) (held : Option (BronzeEvent K P)) (e : BronzeEvent K P) :
    Option (BronzeEvent K P) :=
  match held with
  | none => if isCdc ∧ e.operation = .delete then none else some e
  | some h => LastWriterWins.write (fun e ↦ e.sequence) (some h) e

omit [DecidableEq K] [DecidableEq P] in
/-- **The merge of a row is a write to the register.** -/
theorem holds_mergeSilverRow {isCdc : Bool} {row : Option (SilverRow K P)}
    {held : Option (BronzeEvent K P)} (h : Holds clean row held) {e : BronzeEvent K P}
    (hkey : ∀ t, row = some t → t.key = e.key) :
    Holds clean (mergeSilverRow isCdc row (some (mergedRow fns clean e)))
      (writeEvent isCdc held e) := by
  have hcarries := carries_mergedRow fns clean e
  cases row with
  | none =>
    cases held with
    | some x => exact h.elim
    | none =>
      show Holds clean (if _ then none else _) (if _ then none else _)
      -- a CDC delete without a row to mark is not inserted
      rcases Decidable.em (isCdc = true ∧ e.operation = .delete) with hsoft | hsoft
      · rw [if_pos hsoft, if_pos (by simpa [hcarries.isDeleted] using hsoft)]
        trivial
      · rw [if_neg hsoft, if_neg (by simpa [hcarries.isDeleted] using hsoft)]
        exact hcarries
  | some t =>
    cases held with
    | none => exact h.elim
    | some x =>
      have hseq : t.sequence = x.sequence := Carries.sequence h
      rcases lt_or_ge x.sequence e.sequence with hlt | hge
      · rw [writeEvent, LastWriterWins.write_of_lt hlt,
          mergeSilverRow_of_lt (by rw [hseq]; exact hlt)]
        rcases Decidable.em (isCdc = true ∧ e.operation = .delete) with hsoft | hsoft
        · -- a soft delete keeps the business columns, which a deleted row does not show
          rw [if_pos (by simpa [hcarries.isDeleted] using hsoft)]
          exact
            { key := hkey t rfl
              sequence := rfl
              isDeleted := hcarries.isDeleted
              payload := fun hop ↦ absurd hsoft.2 hop }
        · rw [if_neg (by simpa [hcarries.isDeleted] using hsoft)]
          exact
            { key := rfl
              sequence := rfl
              isDeleted := hcarries.isDeleted
              payload := fun _ ↦ rfl }
      · rw [writeEvent, LastWriterWins.write_of_ge hge,
          mergeSilverRow_of_ge (by rw [hseq]; exact hge)]
        exact h

end Merge

/-! ### The pieces that leave a key a row -/

/-- The events of one key. -/
def eventsOf (k : K) (events : List (BronzeEvent K P)) : List (BronzeEvent K P) :=
  events.filter fun e ↦ e.key = k

/-- The newest event of a key in a piece. -/
def SilverPiece.newestOf (k : K) (piece : SilverPiece K P) : Option (BronzeEvent K P) :=
  LastWriterWins.newest (fun e ↦ e.sequence) (eventsOf k piece.events)

/-- Merged while Silver holds no row for the key, the piece leaves none: it has no event of the key,
or it is a CDC micro-batch whose newest event of the key is a delete. -/
def SilverPiece.leavesNoRow (k : K) (piece : SilverPiece K P) : Bool :=
  match piece.newestOf k with
  | none => true
  | some e => piece.isCdc && e.operation = .delete

/-- The pieces from the first one on that leaves the key a row. -/
def recordedPieces (k : K) (pieces : List (SilverPiece K P)) : List (SilverPiece K P) :=
  pieces.dropWhile fun piece ↦ piece.leavesNoRow k

/-- The events of a key in pieces. -/
def eventsOfPieces (k : K) (pieces : List (SilverPiece K P)) : List (BronzeEvent K P) :=
  (pieces.map fun piece ↦ eventsOf k piece.events).flatten

/-- The event a key holds after pieces, from the one it held before. -/
def heldEvent (k : K) (held : Option (BronzeEvent K P)) (pieces : List (SilverPiece K P)) :
    Option (BronzeEvent K P) :=
  pieces.foldl (fun held piece ↦
    match piece.newestOf k with
    | none => held
    | some e => writeEvent piece.isCdc held e) held

/-- A key that holds an event is a plain last-writer-wins register. -/
theorem heldEvent_some (k : K) (h : BronzeEvent K P) (pieces : List (SilverPiece K P)) :
    heldEvent k (some h) pieces =
      (pieces.filterMap fun piece ↦ piece.newestOf k).foldl
        (LastWriterWins.write fun e ↦ e.sequence) (some h) := by
  induction pieces generalizing h with
  | nil => rfl
  | cons piece rest ih =>
    cases hnew : piece.newestOf k with
    | none =>
      rw [List.filterMap_cons_none hnew, ← ih, heldEvent, List.foldl_cons, hnew]
      rfl
    | some e =>
      rw [List.filterMap_cons_some hnew, List.foldl_cons, heldEvent, List.foldl_cons, hnew]
      show heldEvent k (LastWriterWins.write _ (some h) e) rest = _
      rcases lt_or_ge h.sequence e.sequence with hlt | hge
      · rw [LastWriterWins.write_of_lt hlt]
        exact ih e
      · rw [LastWriterWins.write_of_ge hge]
        exact ih h

/-- **What a key holds at the end** is the newest event of its recorded pieces. -/
theorem heldEvent_none (k : K) (pieces : List (SilverPiece K P)) :
    heldEvent k none pieces = LastWriterWins.newest (fun e ↦ e.sequence)
      ((recordedPieces k pieces).filterMap fun piece ↦ piece.newestOf k) := by
  induction pieces with
  | nil => rfl
  | cons piece rest ih =>
    rw [heldEvent, List.foldl_cons, recordedPieces]
    cases hnew : piece.newestOf k with
    | none =>
      rw [List.dropWhile_cons_of_pos (by simp [SilverPiece.leavesNoRow, hnew])]
      exact ih
    | some e =>
      by_cases hleaves : piece.isCdc = true ∧ e.operation = .delete
      · rw [List.dropWhile_cons_of_pos (by simp [SilverPiece.leavesNoRow, hnew, hleaves])]
        simp only [writeEvent, if_pos hleaves]
        exact ih
      · rw [List.dropWhile_cons_of_neg (by simpa [SilverPiece.leavesNoRow, hnew] using hleaves),
          List.filterMap_cons_some hnew]
        simp only [writeEvent, if_neg hleaves]
        exact heldEvent_some k e rest

/-! ### Convergence -/

/-- Events of one key with one sequence are the same event. -/
def DistinctSequences (pieces : List (SilverPiece K P)) : Prop :=
  ∀ e ∈ pieces.flatMap SilverPiece.events, ∀ e' ∈ pieces.flatMap SilverPiece.events,
    e.key = e'.key → e.sequence = e'.sequence → e = e'

instance [DecidableEq P] (pieces : List (SilverPiece K P)) :
    Decidable (DistinctSequences pieces) :=
  inferInstanceAs (Decidable (∀ e ∈ _, ∀ e' ∈ _, _ → _ → _))

/-- The events of a key are the events with it. -/
theorem mem_eventsOf {k : K} {events : List (BronzeEvent K P)} {e : BronzeEvent K P} :
    e ∈ eventsOf k events ↔ e ∈ events ∧ e.key = k := by
  rw [eventsOf, List.mem_filter, decide_eq_true_iff]

/-- The same over pieces. -/
theorem mem_eventsOfPieces {k : K} {pieces : List (SilverPiece K P)} {e : BronzeEvent K P} :
    e ∈ eventsOfPieces k pieces ↔ ∃ piece ∈ pieces, e ∈ piece.events ∧ e.key = k := by
  simp [eventsOfPieces, mem_eventsOf]

/-- Where sequences are distinct they identify the events of a key. -/
theorem DistinctSequences.stampsIdentify {pieces : List (SilverPiece K P)}
    (h : DistinctSequences pieces) (k : K) :
    LastWriterWins.StampsIdentify (fun e ↦ e.sequence) (eventsOfPieces k pieces) := by
  intro x hx y hy heq
  obtain ⟨p, hp, hxp, hxk⟩ := mem_eventsOfPieces.1 hx
  obtain ⟨q, hq, hyq, hyk⟩ := mem_eventsOfPieces.1 hy
  exact h x (List.mem_flatMap.2 ⟨p, hp, hxp⟩) y (List.mem_flatMap.2 ⟨q, hq, hyq⟩)
    (hxk.trans hyk.symm) heq

section Run

variable [DecidableEq P] (fns : SparkFunctions) (clean : P → P)

omit [DecidableEq P] in
/-- Each key is merged as the newest event the piece has for it. -/
theorem lookup_transformTable_eq {pieces : List (SilverPiece K P)} (h : DistinctSequences pieces)
    {piece : SilverPiece K P} (hpiece : piece ∈ pieces) (k : K) :
    MergeInto.lookup (fun row ↦ row.key) k (transformTable fns clean piece.events) =
      (piece.newestOf k).map (mergedRow fns clean) := by
  have hstamps : LastWriterWins.StampsIdentify (fun e ↦ e.sequence) (eventsOf k piece.events) :=
    (h.stampsIdentify k).mono fun e he ↦ mem_eventsOfPieces.2 ⟨piece, hpiece, mem_eventsOf.1 he⟩
  rcases lookup_transformTable fns clean piece.events k with ⟨hnone, hno⟩ | ⟨e, he, hk, hmax, hsome⟩
  · have hnil : eventsOf k piece.events = [] :=
      List.filter_eq_nil_iff.2 fun e he ↦ by simpa using hno e he
    rw [hnone, SilverPiece.newestOf, hnil]
    rfl
  · have hnew : piece.newestOf k = some e :=
      (LastWriterWins.newest_eq_some_iff hstamps).2 ⟨mem_eventsOf.2 ⟨he, hk⟩, fun x hx ↦
        hmax x (mem_eventsOf.1 hx).1 (mem_eventsOf.1 hx).2⟩
    rw [hsome, hnew, Option.map_some]

/-- The step of a run: one piece keeps "each key holds its register". -/
theorem holds_mergePiece {pieces : List (SilverPiece K P)} (h : DistinctSequences pieces)
    {piece : SilverPiece K P} (hpiece : piece ∈ pieces) {table : List (SilverRow K P)}
    (hkeys : (table.map fun row ↦ row.key).Nodup) {held : K → Option (BronzeEvent K P)}
    (hheld : ∀ k, Holds clean (MergeInto.lookup (fun row ↦ row.key) k table) (held k)) :
    ∃ table', mergePiece fns clean table piece = some table' ∧
      (table'.map fun row ↦ row.key).Nodup ∧
      ∀ k, Holds clean (MergeInto.lookup (fun row ↦ row.key) k table')
        (heldEvent k (held k) [piece]) := by
  obtain ⟨table', hmerge, hkeys', hlookup⟩ := lookup_mergePiece fns clean hkeys piece
  refine ⟨table', hmerge, hkeys', fun k ↦ ?_⟩
  rw [hlookup, lookup_transformTable_eq fns clean h hpiece, heldEvent, List.foldl_cons,
    List.foldl_nil]
  cases hnew : piece.newestOf k with
  | none => exact hheld k
  | some e =>
    refine holds_mergeSilverRow fns clean (hheld k) fun t ht ↦ ?_
    rw [(MergeInto.mem_of_lookup ht).2]
    exact (mem_eventsOf.1 (LastWriterWins.isNewest_of_newest hnew).1).2.symm

/-- A run: after pieces each key holds its register. -/
theorem holds_mergePieces {all : List (SilverPiece K P)} (h : DistinctSequences all)
    {pieces : List (SilverPiece K P)} (hsub : pieces ⊆ all) (table : List (SilverRow K P))
    (hkeys : (table.map fun row ↦ row.key).Nodup) (held : K → Option (BronzeEvent K P))
    (hheld : ∀ k, Holds clean (MergeInto.lookup (fun row ↦ row.key) k table) (held k)) :
    ∃ table', mergePieces fns clean table pieces = some table' ∧
      (table'.map fun row ↦ row.key).Nodup ∧
      ∀ k, Holds clean (MergeInto.lookup (fun row ↦ row.key) k table')
        (heldEvent k (held k) pieces) := by
  induction pieces generalizing table held with
  | nil => exact ⟨table, rfl, hkeys, hheld⟩
  | cons piece rest ih =>
    obtain ⟨table₁, hmerge, hkeys₁, hheld₁⟩ :=
      holds_mergePiece fns clean h (hsub List.mem_cons_self) hkeys hheld
    obtain ⟨table₂, hrest, hkeys₂, hheld₂⟩ :=
      ih (fun p hp ↦ hsub (List.mem_cons_of_mem _ hp)) table₁ hkeys₁ _ hheld₁
    refine ⟨table₂, ?_, hkeys₂, hheld₂⟩
    rw [mergePieces, List.foldlM_cons, hmerge]
    exact hrest

end Run

/-- The key's newest event among the recorded pieces. -/
def IsRecordedNewest (k : K) (pieces : List (SilverPiece K P)) (e : BronzeEvent K P) : Prop :=
  LastWriterWins.IsNewest (fun e ↦ e.sequence) (eventsOfPieces k (recordedPieces k pieces)) e

/-- The key's newest event among all pieces. -/
def IsNewestOf (k : K) (pieces : List (SilverPiece K P)) (e : BronzeEvent K P) : Prop :=
  LastWriterWins.IsNewest (fun e ↦ e.sequence) (eventsOfPieces k pieces) e

/-- **What Silver shows of a key** after pieces. -/
structure ShowsNewest (clean : P → P) (pieces : List (SilverPiece K P))
    (table : List (SilverRow K P)) (k : K) : Prop where
  /-- The newest recorded event is shown when it is no delete. -/
  shown : ∀ e, IsRecordedNewest k pieces e → e.operation ≠ .delete →
    ∃ row, visibleRow table k = some row ∧ row.sequence = e.sequence ∧
      row.payload = clean e.payload
  /-- Nothing is shown otherwise. -/
  hidden : (¬∃ e, IsRecordedNewest k pieces e ∧ e.operation ≠ .delete) → visibleRow table k = none
  /-- The newest event of all is recorded when it is no delete, or when the first piece that has
  the key leaves it a row. -/
  recorded : ∀ e, IsNewestOf k pieces e →
    (e.operation ≠ .delete ∨
      ∃ first ∈ pieces.find? (fun piece ↦ (piece.newestOf k).isSome),
        first.leavesNoRow k = false) →
    IsRecordedNewest k pieces e

/-- With distinct keys, the visible row is the row of the key unless deleted. -/
theorem visibleRow_eq_filter {table : List (SilverRow K P)}
    (hkeys : (table.map fun row ↦ row.key).Nodup) (k : K) :
    visibleRow table k =
      (MergeInto.lookup (fun row ↦ row.key) k table).filter fun row ↦ !row.isDeleted := by
  have hvisible : visibleRow table k =
      MergeInto.lookup (fun row ↦ row.key) k (table.filter fun row ↦ !row.isDeleted) := by
    rw [visibleRow, MergeInto.lookup, List.find?_filter]
    congr 1
    funext row
    cases row.isDeleted <;> simp
  refine Option.ext fun row ↦ ?_
  rw [hvisible, MergeInto.lookup_eq_some_iff (hkeys.sublist (List.filter_sublist.map _)),
    Option.filter_eq_some_iff, MergeInto.lookup_eq_some_iff hkeys, List.mem_filter]
  exact and_right_comm

/-- **When the newest event of all is recorded**: it is no delete, or the first piece that has the
key leaves it a row. -/
theorem isRecordedNewest_of_isNewestOf {k : K} {pieces : List (SilverPiece K P)}
    (h : DistinctSequences pieces) {e : BronzeEvent K P} (he : IsNewestOf k pieces e)
    (hcases : e.operation ≠ .delete ∨
      ∃ first ∈ pieces.find? (fun piece ↦ (piece.newestOf k).isSome),
        first.leavesNoRow k = false) :
    IsRecordedNewest k pieces e := by
  have hsplit : pieces = pieces.takeWhile (fun piece ↦ piece.leavesNoRow k) ++
      recordedPieces k pieces := List.takeWhile_append_dropWhile.symm
  have hnewest : ∀ piece ∈ pieces, e ∈ piece.events → piece.newestOf k = some e := by
    intro piece hpiece hin
    have hsub : eventsOf k piece.events ⊆ eventsOfPieces k pieces := fun x hx ↦
      mem_eventsOfPieces.2 ⟨piece, hpiece, mem_eventsOf.1 hx⟩
    refine (LastWriterWins.newest_eq_some_iff ((h.stampsIdentify k).mono hsub)).2
      ⟨mem_eventsOf.2 ⟨hin, ?_⟩, fun x hx ↦ he.2 x (hsub hx)⟩
    obtain ⟨-, -, -, hk⟩ := mem_eventsOfPieces.1 he.1
    exact hk
  obtain ⟨piece, hpiece, hin, hk⟩ := mem_eventsOfPieces.1 he.1
  -- the piece of `e` is not among those that leave no row
  have hnot : piece ∉ pieces.takeWhile fun piece ↦ piece.leavesNoRow k := by
    intro htake
    rcases hcases with hop | ⟨first, hfirst, hleaves⟩
    · have hleaves := List.mem_takeWhile_imp htake
      rw [SilverPiece.leavesNoRow, hnewest piece hpiece hin] at hleaves
      simp [hop] at hleaves
    · rw [hsplit, List.find?_append, Option.mem_def] at hfirst
      have hsome : ((pieces.takeWhile fun piece ↦ piece.leavesNoRow k).find?
          fun piece ↦ (piece.newestOf k).isSome).isSome := by
        rw [List.find?_isSome]
        exact ⟨piece, htake, by rw [hnewest piece hpiece hin]; rfl⟩
      rw [Option.or_of_isSome hsome] at hfirst
      have := List.mem_takeWhile_imp (List.mem_of_find?_eq_some hfirst)
      rw [hleaves] at this
      exact Bool.false_ne_true this
  refine ⟨mem_eventsOfPieces.2 ⟨piece, ?_, hin, hk⟩, fun x hx ↦ he.2 x ?_⟩
  · rw [hsplit] at hpiece
    exact (List.mem_append.1 hpiece).resolve_left hnot
  · obtain ⟨q, hq, hxq⟩ := mem_eventsOfPieces.1 hx
    exact mem_eventsOfPieces.2 ⟨q, (List.dropWhile_sublist _).subset hq, hxq⟩

/-- The register holds the newest recorded event. -/
theorem newest_recorded_eq_some_iff {k : K} {pieces : List (SilverPiece K P)}
    (h : DistinctSequences pieces) {e : BronzeEvent K P} :
    LastWriterWins.newest (fun e ↦ e.sequence)
        ((recordedPieces k pieces).filterMap fun piece ↦ piece.newestOf k) = some e ↔
      IsRecordedNewest k pieces e := by
  have hlogs : ((recordedPieces k pieces).filterMap fun piece ↦ piece.newestOf k) =
      ((recordedPieces k pieces).map fun piece ↦ eventsOf k piece.events).filterMap
        fun log ↦ LastWriterWins.newest (fun e ↦ e.sequence) log := by
    rw [List.filterMap_map]
    rfl
  have hstamps : LastWriterWins.StampsIdentify (fun e ↦ e.sequence)
      (eventsOfPieces k (recordedPieces k pieces)) :=
    (h.stampsIdentify k).mono fun x hx ↦ by
      obtain ⟨q, hq, hxq⟩ := mem_eventsOfPieces.1 hx
      exact mem_eventsOfPieces.2 ⟨q, (List.dropWhile_sublist _).subset hq, hxq⟩
  rw [hlogs]
  refine ⟨LastWriterWins.isNewest_flatten, fun he ↦ ?_⟩
  obtain ⟨x, hx⟩ := LastWriterWins.exists_newest_flatten (fun e ↦ e.sequence) he.1
  rw [hx, LastWriterWins.eq_of_isNewest hstamps (LastWriterWins.isNewest_flatten hx) he]

/-- **Silver convergence**: pieces merged in any order, split or repeated in any way, show of each
key the newest event of its recorded pieces. -/
theorem showsNewest_mergePieces [DecidableEq P] (fns : SparkFunctions) (clean : P → P)
    (pieces : List (SilverPiece K P)) (hdistinct : DistinctSequences pieces) :
    ∃ table, mergePieces fns clean [] pieces = some table ∧
      (table.map fun row ↦ row.key).Nodup ∧ ∀ k, ShowsNewest clean pieces table k := by
  obtain ⟨table, hrun, hkeys, hholds⟩ := holds_mergePieces fns clean hdistinct
    (List.Subset.refl pieces) [] List.nodup_nil (fun _ ↦ none) fun _ ↦ trivial
  refine ⟨table, hrun, hkeys, fun k ↦ ?_⟩
  have hk := hholds k
  rw [heldEvent_none] at hk
  refine
    { shown := fun e he hop ↦ ?_
      hidden := fun hno ↦ ?_
      recorded := fun e he hcases ↦ isRecordedNewest_of_isNewestOf hdistinct he hcases }
  · rw [(newest_recorded_eq_some_iff hdistinct).2 he] at hk
    cases hrow : MergeInto.lookup (fun row ↦ row.key) k table with
    | none =>
      rw [hrow] at hk
      exact hk.elim
    | some row =>
      rw [hrow] at hk
      have hdel : row.isDeleted = false := Bool.eq_false_iff.2 fun hd ↦ hop (hk.isDeleted.1 hd)
      -- the newest event is no delete, so the row that carries it is shown
      refine ⟨row, ?_, hk.sequence, hk.payload hop⟩
      rw [visibleRow_eq_filter hkeys, hrow, Option.filter_some, hdel]
      rfl
  · rw [visibleRow_eq_filter hkeys]
    cases hrow : MergeInto.lookup (fun row ↦ row.key) k table with
    | none => rfl
    | some row =>
      rw [hrow] at hk
      cases hnew : LastWriterWins.newest (fun e ↦ e.sequence)
          ((recordedPieces k pieces).filterMap fun piece ↦ piece.newestOf k) with
      | none =>
        rw [hnew] at hk
        exact hk.elim
      | some e =>
        rw [hnew] at hk
        have he := (newest_recorded_eq_some_iff hdistinct).1 hnew
        have hdel : row.isDeleted = true := hk.isDeleted.2 (by
          by_contra hop
          exact hno ⟨e, he, hop⟩)
        rw [Option.filter_some, hdel]
        rfl

/-- A Batch insert of key 7, with payload 100. -/
def batchInsert : BronzeEvent ℤ ℤ where
  key := 7
  createdAt := 10
  payload := 100
  operation := .insert
  eventOccurredAt := some 10
  eventId := .number 1
  batchId := ['b']
  isStreamingCdc := false
  sourceLsn := none
  kafkaPartition := none
  kafkaOffset := none

/-- The later CDC delete of key 7. -/
def cdcDelete : BronzeEvent ℤ ℤ where
  key := 7
  createdAt := 10
  payload := 100
  operation := .delete
  eventOccurredAt := some 20
  eventId := .text ['x']
  batchId := ['c']
  isStreamingCdc := true
  sourceLsn := some 5
  kafkaPartition := some 0
  kafkaOffset := some 3

/-- A later CDC insert of key 7, with payload 200. -/
def cdcReinsert : BronzeEvent ℤ ℤ :=
  { cdcDelete with
    payload := 200
    operation := .insert
    eventOccurredAt := some 30
    eventId := .text ['y']
    sourceLsn := some 6
    kafkaOffset := some 4 }

/-- A delete without a row, an insert that is older, and a later insert: the last one is shown. -/
theorem showsNewest_orphanDelete :
    ∃ table, mergePieces SparkFunctions.plain id []
        [.cdc [cdcDelete], .batch [batchInsert], .cdc [cdcReinsert], .batch [batchInsert]] =
          some table ∧
      (table.map fun row ↦ row.key).Nodup ∧
      ∀ k, ShowsNewest id
        [.cdc [cdcDelete], .batch [batchInsert], .cdc [cdcReinsert],
          .batch [batchInsert]] table k :=
  showsNewest_mergePieces SparkFunctions.plain id _ (by decide)

/-- **An orphan delete is forgotten**: merged first, it does not stop the older insert from showing,
although it is the newest event; merged second, it does. -/
theorem orphanDelete_resurrected :
    DistinctSequences [.cdc [cdcDelete], .batch [batchInsert]] ∧
      batchInsert.sequence < cdcDelete.sequence ∧
      ((mergePieces SparkFunctions.plain id [] [.cdc [cdcDelete], .batch [batchInsert]]).map
        fun table ↦ (visibleRow table 7).map fun row ↦ row.payload) = some (some 100) ∧
      ((mergePieces SparkFunctions.plain id [] [.batch [batchInsert], .cdc [cdcDelete]]).map
        fun table ↦ (visibleRow table 7).map fun row ↦ row.payload) = some none := by
  decide

end LakehousePipeline
