import LakehousePipeline.Silver.Lake

/-!
# Readiness of the sales tables for Gold

After a micro-batch the orders it touched are checked (`_source_fact_ready_for_gold`): an order that
is shown must have items that add up to its header, and a deleted one must have none. The check
reads tombstones, because an order without any row counts as not yet arrived.

Silver holds a tombstone only for an order that had a row before: the merge does not insert one. A
micro-batch that brings an order and its delete together therefore leaves nothing behind, and the
order stays "not yet arrived" for good. `sourceFactReady_iff` says that nothing else can go wrong:
once all events are merged, every set of orders is ready exactly when each deleted order has left a
row at some point.

## What is compared

On one side stands the source: `OrderSettled` says that it is done with an order, in terms of the
newest event of the order and of the newest events of the items. On the other side stands Silver
after the merges. Both are read from the same pieces, and the pieces may cut the events into Batch
increments and CDC micro-batches in any way in which deletes come last (`DeletesLast`).

## From pieces to rows

* A table that does not exist yet is written with all rows of the piece that creates it, tombstones
  included, as a Batch increment is. `effectivePieces` replaces that piece by such an increment, and
  the merges into a missing table are merges into an empty one (`holds_mergeTables`).
* The row of a key carries its newest event unless that is a delete that found no row
  (`carries_of_isNewestOf`), and no row carries anything else (`exists_carries_of_lookup`).
* An item whose delete found no row is not shown, and neither is one whose delete left a tombstone.
  So the items of an order are those of the source in either case (`activeItems_perm_sourceItems`),
  and only for the order itself does the difference matter.
-/

namespace LakehousePipeline

variable {K P : Type}

/-! ### Merging into a table that may not exist -/

section Merge

variable [DecidableEq K] [DecidableEq P] (fns : SparkFunctions) (clean : P → P)

/-- `_merge_table`, for a table that has events in the piece: a missing table is written with all
rows, tombstones included. The result is `none` when the merge fails. -/
def mergeTable (table : Option (List (SilverRow K P))) (piece : SilverPiece K P) :
    Option (Option (List (SilverRow K P))) :=
  if piece.events = [] then some table
  else
    match table with
    | none => some (some (transformTable fns clean piece.events))
    | some rows => (mergePiece fns clean rows piece).map some

/-- Pieces merged one after the other. -/
def mergeTables (table : Option (List (SilverRow K P))) (pieces : List (SilverPiece K P)) :
    Option (Option (List (SilverRow K P))) :=
  pieces.foldlM (mergeTable fns clean) table

end Merge

/-- The pieces as they are merged: the one that creates the table keeps its deletes, as a Batch
increment does. -/
def effectivePieces (targetExists : Bool) :
    List (SilverPiece K P) → List (SilverPiece K P)
  | [] => []
  | piece :: rest =>
    if targetExists = true then piece :: rest
    else if piece.events = [] then piece :: effectivePieces false rest
    else .batch piece.events :: rest

/-- **Every delete comes last**: of its key no event has a higher sequence, and none comes in a
later piece. -/
def DeletesLast (pieces : List (SilverPiece K P)) : Prop :=
  (∀ d ∈ pieces.flatMap SilverPiece.events, d.operation = .delete →
    ∀ x ∈ pieces.flatMap SilverPiece.events, x.key = d.key → x.sequence ≤ d.sequence) ∧
  (pieces.map SilverPiece.events).Pairwise fun earlier later ↦
    ∀ d ∈ earlier, d.operation = .delete → ∀ x ∈ later, x.key ≠ d.key

/-! ### The readiness check -/

/-- `abs(a - b) > tolerance`, false when it is null; the tolerance is one cent. -/
def exceedsTolerance (a b : Option ℤ) : Bool :=
  match minus a b with
  | some difference => 1 < difference.natAbs
  | none => false

/-- The items of an order that are not deleted. -/
def activeItems (items : List (SilverRow ℤ OrderItemColumns)) (orderId : ℤ) :
    List OrderItemColumns :=
  (items.filter fun row ↦ !row.isDeleted ∧ row.payload.orderId = orderId).map fun row ↦ row.payload

/-- `actual_gross`. -/
def actualGross (items : List OrderItemColumns) : Option ℤ :=
  sumOf (items.map fun item ↦ times item.quantity item.unitPrice)

/-- `actual_tax`. -/
def actualTax (items : List OrderItemColumns) : Option ℤ :=
  sumOf (items.map fun item ↦ item.taxAmount)

/-- `active_order_incomplete | deleted_order_incomplete`, where the order may be missing. -/
def orderIncomplete (order : Option (SilverRow ℤ OrderColumns)) (items : List OrderItemColumns) :
    Bool :=
  match order with
  | none => true
  | some row =>
    if row.isDeleted then (actualGross items).isSome
    else (actualGross items).isNone ||
      exceedsTolerance row.payload.subtotalAmount (actualGross items) ||
      exceedsTolerance row.payload.taxAmount (actualTax items)

/-- **`_source_fact_ready_for_gold`**, for given order ids or for all orders that are shown. -/
def sourceFactReadyForGold (orders : List (SilverRow ℤ OrderColumns))
    (items : List (SilverRow ℤ OrderItemColumns)) : Option (List ℤ) → Bool
  | some affectedOrderIds =>
    (Relational.leftJoin (fun orderId row ↦ orderId = row.key) affectedOrderIds orders).all
      fun (orderId, order) ↦ !orderIncomplete order (activeItems items orderId)
  | none => (orders.filter fun row ↦ !row.isDeleted).all fun row ↦
      !orderIncomplete (some row) (activeItems items row.key)

/-! ### What the source says -/

/-- The newest event of each key. -/
def newestEvents [DecidableEq K] (pieces : List (SilverPiece K P)) : List (BronzeEvent K P) :=
  ((pieces.flatMap SilverPiece.events).map fun e ↦ e.key).dedup.filterMap fun k ↦
    LastWriterWins.newest (fun e ↦ e.sequence) (eventsOfPieces k pieces)

section Source

variable (cleanOrder : OrderColumns → OrderColumns)
  (cleanItem : OrderItemColumns → OrderItemColumns)
  (orderPieces : List (SilverPiece ℤ OrderColumns))
  (itemPieces : List (SilverPiece ℤ OrderItemColumns))

/-- The items of an order that the source has in the end. -/
def sourceItems (orderId : ℤ) : List OrderItemColumns :=
  ((newestEvents itemPieces).filter fun e ↦
    e.operation ≠ .delete ∧ (cleanItem e.payload).orderId = orderId).map fun e ↦ cleanItem e.payload

/-- The order is deleted in the source. -/
def OrderDeleted (orderId : ℤ) : Prop :=
  ∃ e, IsNewestOf orderId orderPieces e ∧ e.operation = .delete

/-- **The source is done with an order**: it is deleted with all its items, or it is there and its
items add up to its subtotal and its tax. -/
def OrderSettled (orderId : ℤ) : Prop :=
  OrderDeleted orderPieces orderId ∧ sourceItems cleanItem itemPieces orderId = [] ∨
    ∃ e, IsNewestOf orderId orderPieces e ∧ e.operation ≠ .delete ∧
      (actualGross (sourceItems cleanItem itemPieces orderId)).isSome ∧
      actualGross (sourceItems cleanItem itemPieces orderId) =
        (cleanOrder e.payload).subtotalAmount ∧
      actualTax (sourceItems cleanItem itemPieces orderId) = (cleanOrder e.payload).taxAmount

/-- The order ids of the events: those of the orders, and those of the items. -/
def appearedOrderIds : List ℤ :=
  (orderPieces.flatMap SilverPiece.events).map (fun e ↦ e.key) ++
    (itemPieces.flatMap SilverPiece.events).map fun e ↦ (cleanItem e.payload).orderId

end Source

/-! ### What Silver holds after the merges -/

section Held

/-- The replaced piece has the same events. -/
theorem events_effectivePieces (targetExists : Bool) (pieces : List (SilverPiece K P)) :
    (effectivePieces targetExists pieces).map SilverPiece.events =
      pieces.map SilverPiece.events := by
  induction pieces with
  | nil => rfl
  | cons piece rest ih =>
    rw [effectivePieces]
    split
    · rfl
    · split
      · rename_i hexists _
        rw [List.map_cons, List.map_cons, ← ih, Bool.eq_false_of_not_eq_true hexists]
      · rfl

/-- The events of a key depend on the events of the pieces, not on their kind. -/
theorem eventsOfPieces_congr [DecidableEq K] {pieces pieces' : List (SilverPiece K P)}
    (h : pieces.map SilverPiece.events = pieces'.map SilverPiece.events) (k : K) :
    eventsOfPieces k pieces = eventsOfPieces k pieces' := by
  have hmap : ∀ ps : List (SilverPiece K P), eventsOfPieces k ps =
      ((ps.map SilverPiece.events).map (eventsOf k)).flatten := by
    intro ps
    rw [eventsOfPieces, List.map_map]
    rfl
  rw [hmap, hmap, h]

/-- So does the distinctness of sequences. -/
theorem distinctSequences_congr {pieces pieces' : List (SilverPiece K P)}
    (h : pieces.map SilverPiece.events = pieces'.map SilverPiece.events)
    (hdistinct : DistinctSequences pieces) : DistinctSequences pieces' := by
  rw [DistinctSequences, List.flatMap_def, ← h, ← List.flatMap_def]
  exact hdistinct

variable [DecidableEq K]

/-- A piece without events of the key changes nothing for it. -/
theorem newestOf_eq_none {piece : SilverPiece K P} (h : piece.events = []) (k : K) :
    piece.newestOf k = none := by
  rw [SilverPiece.newestOf, h]
  rfl

/-- A piece without an event of the key leaves what is held. -/
theorem heldEvent_cons_of_newestOf_eq_none {piece : SilverPiece K P} {k : K}
    (h : piece.newestOf k = none) (held : Option (BronzeEvent K P))
    (rest : List (SilverPiece K P)) :
    heldEvent k held (piece :: rest) = heldEvent k held rest := by
  rw [heldEvent, List.foldl_cons, h]
  rfl

/-- Pieces are merged one after the other. -/
theorem heldEvent_cons (k : K) (held : Option (BronzeEvent K P)) (piece : SilverPiece K P)
    (rest : List (SilverPiece K P)) :
    heldEvent k held (piece :: rest) = heldEvent k (heldEvent k held [piece]) rest := rfl

variable [DecidableEq P] {fns : SparkFunctions} {clean : P → P}

/-- Merges into a table that exists. -/
theorem holds_mergeTables_some {all : List (SilverPiece K P)} (h : DistinctSequences all)
    {pieces : List (SilverPiece K P)} (hsub : pieces ⊆ all) (rows : List (SilverRow K P))
    (hkeys : (rows.map fun row ↦ row.key).Nodup) (held : K → Option (BronzeEvent K P))
    (hheld : ∀ k, Holds clean (MergeInto.lookup (fun row ↦ row.key) k rows) (held k)) :
    ∃ rows', mergeTables fns clean (some rows) pieces = some (some rows') ∧
      (rows'.map fun row ↦ row.key).Nodup ∧
      ∀ k, Holds clean (MergeInto.lookup (fun row ↦ row.key) k rows')
        (heldEvent k (held k) pieces) := by
  induction pieces generalizing rows held with
  | nil => exact ⟨rows, rfl, hkeys, hheld⟩
  | cons piece rest ih =>
    have hrest : rest ⊆ all := fun p hp ↦ hsub (List.mem_cons_of_mem _ hp)
    rcases Decidable.em (piece.events = []) with hempty | hsome
    · obtain ⟨rows', hrun, hkeys', hholds⟩ := ih hrest rows hkeys held hheld
      refine ⟨rows', ?_, hkeys', fun k ↦ ?_⟩
      · rw [mergeTables, List.foldlM_cons, mergeTable, if_pos hempty]
        exact hrun
      · rw [heldEvent_cons_of_newestOf_eq_none (newestOf_eq_none hempty k)]
        exact hholds k
    · obtain ⟨rows₁, hmerge, hkeys₁, hheld₁⟩ :=
        holds_mergePiece fns clean h (hsub List.mem_cons_self) hkeys hheld
      obtain ⟨rows', hrun, hkeys', hholds⟩ := ih hrest rows₁ hkeys₁ _ hheld₁
      refine ⟨rows', ?_, hkeys', hholds⟩
      rw [mergeTables, List.foldlM_cons, mergeTable, if_neg hsome]
      show ((mergePiece fns clean rows piece).map some).bind _ = _
      rw [hmerge]
      exact hrun

/-- Merges into a table that is created on the way. -/
theorem holds_mergeTables_none {all : List (SilverPiece K P)} (h : DistinctSequences all)
    {pieces : List (SilverPiece K P)} (hsub : pieces ⊆ all) {rows : List (SilverRow K P)}
    (hrun : mergeTables fns clean none pieces = some (some rows)) :
    (rows.map fun row ↦ row.key).Nodup ∧
      ∀ k, Holds clean (MergeInto.lookup (fun row ↦ row.key) k rows)
        (heldEvent k none (effectivePieces false pieces)) := by
  induction pieces with
  | nil => cases hrun
  | cons piece rest ih =>
    have hrest : rest ⊆ all := fun p hp ↦ hsub (List.mem_cons_of_mem _ hp)
    rw [mergeTables, List.foldlM_cons, mergeTable] at hrun
    rcases Decidable.em (piece.events = []) with hempty | hsome
    · rw [if_pos hempty] at hrun
      obtain ⟨hkeys, hholds⟩ := ih hrest hrun
      refine ⟨hkeys, fun k ↦ ?_⟩
      rw [effectivePieces, if_neg Bool.false_ne_true, if_pos hempty,
        heldEvent_cons_of_newestOf_eq_none (newestOf_eq_none hempty k)]
      exact hholds k
    · rw [if_neg hsome] at hrun
      have hcreated : ∀ k, Holds clean
          (MergeInto.lookup (fun row ↦ row.key) k (transformTable fns clean piece.events))
          (heldEvent k none [.batch piece.events]) := by
        intro k
        have hnewest : SilverPiece.newestOf k (.batch piece.events) = piece.newestOf k := rfl
        rw [lookup_transformTable_eq fns clean h (hsub List.mem_cons_self), heldEvent,
          List.foldl_cons, List.foldl_nil, hnewest]
        cases piece.newestOf k with
        | none => trivial
        | some e => exact carries_mergedRow fns clean e
      obtain ⟨rows', hrun', hkeys, hholds⟩ := holds_mergeTables_some h hrest _
        (nodup_key_transformTable fns clean piece.events) _ hcreated
      obtain rfl : rows' = rows :=
        Option.some.inj (Option.some.inj (hrun'.symm.trans hrun))
      refine ⟨hkeys, fun k ↦ ?_⟩
      rw [effectivePieces, if_neg Bool.false_ne_true, if_neg hsome, heldEvent_cons]
      exact hholds k

variable (K P) in
/-- The table before the merges, missing or empty. -/
def emptyTable (targetExists : Bool) : Option (List (SilverRow K P)) :=
  if targetExists then some [] else none

variable {targetExists : Bool} {pieces : List (SilverPiece K P)} {rows : List (SilverRow K P)}

/-- **What the merges leave**: unique keys, and for each key the row of the event that is held,
whether or not the table existed before. -/
theorem holds_mergeTables (h : DistinctSequences pieces)
    (hrun : mergeTables fns clean (emptyTable K P targetExists) pieces = some (some rows)) :
    (rows.map fun row ↦ row.key).Nodup ∧
      ∀ k, Holds clean (MergeInto.lookup (fun row ↦ row.key) k rows)
        (heldEvent k none (effectivePieces targetExists pieces)) := by
  rcases targetExists with _ | _
  · exact holds_mergeTables_none h (List.Subset.refl pieces) hrun
  · obtain ⟨rows', hrun', hkeys, hholds⟩ :
        ∃ rows', mergeTables fns clean (some []) pieces = some (some rows') ∧
          (rows'.map fun row ↦ row.key).Nodup ∧
          ∀ k, Holds clean (MergeInto.lookup (fun row ↦ row.key) k rows')
            (heldEvent k none pieces) :=
      holds_mergeTables_some h (List.Subset.refl pieces) [] List.nodup_nil (fun _ ↦ none)
        fun _ ↦ trivial
    obtain rfl : rows' = rows := Option.some.inj (Option.some.inj (hrun'.symm.trans hrun))
    refine ⟨hkeys, fun k ↦ ?_⟩
    have heffective : effectivePieces true pieces = pieces := by
      rcases pieces with - | ⟨piece, rest⟩ <;> rfl
    rw [heffective]
    exact hholds k

/-! ### The row of a key after the merges -/

omit [DecidableEq P] in
/-- The key's newest event is recorded when it is no delete, or when some piece leaves the key a
row. -/
theorem newest_recorded (h : DistinctSequences pieces) (hlast : DeletesLast pieces) {k : K}
    {e : BronzeEvent K P} (he : IsNewestOf k pieces e)
    (hrow : e.operation ≠ .delete ∨
      ∃ piece ∈ effectivePieces targetExists pieces, piece.leavesNoRow k = false) :
    IsRecordedNewest k (effectivePieces targetExists pieces) e := by
  have hevents := events_effectivePieces targetExists pieces
  have heffective : IsNewestOf k (effectivePieces targetExists pieces) e := by
    rw [IsNewestOf, eventsOfPieces_congr hevents]
    exact he
  rcases Decidable.em (e.operation = .delete) with hdelete | hop
  · obtain ⟨leaving, hleaving, hleaves⟩ := hrow.resolve_left fun hop ↦ hop hdelete
    obtain ⟨piece, hpiece, hin, hk⟩ := mem_eventsOfPieces.1 heffective.1
    have hsplit : effectivePieces targetExists pieces =
        (effectivePieces targetExists pieces).takeWhile (fun piece ↦ piece.leavesNoRow k) ++
          recordedPieces k (effectivePieces targetExists pieces) :=
      List.takeWhile_append_dropWhile.symm
    have hleaving' : leaving ∈ recordedPieces k (effectivePieces targetExists pieces) := by
      rw [hsplit] at hleaving
      refine (List.mem_append.1 hleaving).resolve_left fun htake ↦ ?_
      rw [List.mem_takeWhile_imp htake] at hleaves
      cases hleaves
    -- the piece that leaves a row has an event of the key, so it does not come after the delete
    have hrecorded : piece ∈ recordedPieces k (effectivePieces targetExists pieces) := by
      rw [hsplit] at hpiece
      refine (List.mem_append.1 hpiece).resolve_left fun htake ↦ ?_
      rcases hnew : leaving.newestOf k with - | x
      · rw [SilverPiece.leavesNoRow, hnew] at hleaves
        cases hleaves
      · obtain ⟨hx, hxk⟩ := mem_eventsOf.1 (LastWriterWins.isNewest_of_newest hnew).1
        have hpairwise := hlast.2
        rw [← hevents, hsplit, List.map_append, List.pairwise_append] at hpairwise
        exact hpairwise.2.2 _ (List.mem_map_of_mem htake) _ (List.mem_map_of_mem hleaving') e hin
          hdelete x hx (hxk.trans hk.symm)
    refine ⟨mem_eventsOfPieces.2 ⟨piece, hrecorded, hin, hk⟩, fun x hx ↦ heffective.2 x ?_⟩
    obtain ⟨q, hq, hxq⟩ := mem_eventsOfPieces.1 hx
    exact mem_eventsOfPieces.2 ⟨q, (List.dropWhile_sublist _).subset hq, hxq⟩
  · exact isRecordedNewest_of_isNewestOf (distinctSequences_congr hevents.symm h) heffective
      (Or.inl hop)

/-- **The row of a key carries its newest event**, when that is no delete or some piece left the key
a row. -/
theorem carries_of_isNewestOf (h : DistinctSequences pieces) (hlast : DeletesLast pieces)
    (hrun : mergeTables fns clean (emptyTable K P targetExists) pieces = some (some rows)) {k : K}
    {e : BronzeEvent K P} (he : IsNewestOf k pieces e)
    (hrow : e.operation ≠ .delete ∨
      ∃ piece ∈ effectivePieces targetExists pieces, piece.leavesNoRow k = false) :
    ∃ row, MergeInto.lookup (fun row ↦ row.key) k rows = some row ∧ Carries clean row e := by
  have hholds := (holds_mergeTables h hrun).2 k
  have hdistinct := distinctSequences_congr (events_effectivePieces targetExists pieces).symm h
  rw [heldEvent_none, (newest_recorded_eq_some_iff hdistinct).2 (newest_recorded h hlast he hrow)]
    at hholds
  rcases hlookup : MergeInto.lookup (fun row ↦ row.key) k rows with - | row
  · rw [hlookup] at hholds
    exact hholds.elim
  · rw [hlookup] at hholds
    exact ⟨row, hlookup, hholds⟩

/-- Where no piece leaves a key a row, it has none. -/
theorem lookup_eq_none_of_leavesNoRow (h : DistinctSequences pieces)
    (hrun : mergeTables fns clean (emptyTable K P targetExists) pieces = some (some rows)) {k : K}
    (hnone : ∀ piece ∈ effectivePieces targetExists pieces, piece.leavesNoRow k = true) :
    MergeInto.lookup (fun row ↦ row.key) k rows = none := by
  have hholds := (holds_mergeTables h hrun).2 k
  have hnil : recordedPieces k (effectivePieces targetExists pieces) = [] :=
    List.dropWhile_eq_nil_iff.2 hnone
  rw [heldEvent_none, hnil] at hholds
  rcases hlookup : MergeInto.lookup (fun row ↦ row.key) k rows with - | row
  · exact hlookup
  · rw [hlookup] at hholds
    exact hholds.elim

/-- **Every row carries the newest event of its key.** -/
theorem exists_carries_of_lookup (h : DistinctSequences pieces) (hlast : DeletesLast pieces)
    (hrun : mergeTables fns clean (emptyTable K P targetExists) pieces = some (some rows)) {k : K}
    {row : SilverRow K P} (hlookup : MergeInto.lookup (fun row ↦ row.key) k rows = some row) :
    ∃ e, IsNewestOf k pieces e ∧ Carries clean row e := by
  have hleaves : ∃ piece ∈ effectivePieces targetExists pieces, piece.leavesNoRow k = false := by
    by_contra hno
    have hnone := lookup_eq_none_of_leavesNoRow h hrun (k := k) fun piece hpiece ↦ by
      by_contra hfalse
      exact hno ⟨piece, hpiece, Bool.eq_false_of_not_eq_true hfalse⟩
    rw [hlookup] at hnone
    cases hnone
  have hne : eventsOfPieces k pieces ≠ [] := by
    obtain ⟨piece, hpiece, hfalse⟩ := hleaves
    rw [← eventsOfPieces_congr (events_effectivePieces targetExists pieces)]
    rcases hnew : piece.newestOf k with - | x
    · rw [SilverPiece.leavesNoRow, hnew] at hfalse
      cases hfalse
    · have hx := mem_eventsOf.1 (LastWriterWins.isNewest_of_newest hnew).1
      exact List.ne_nil_of_mem (mem_eventsOfPieces.2 ⟨piece, hpiece, hx⟩)
  obtain ⟨x, hx⟩ := List.exists_mem_of_ne_nil _ hne
  obtain ⟨e, hnew⟩ := LastWriterWins.exists_newest_of_mem (fun e ↦ e.sequence) hx
  have he : IsNewestOf k pieces e := LastWriterWins.isNewest_of_newest hnew
  obtain ⟨row', hlookup', hcarries⟩ := carries_of_isNewestOf h hlast hrun he (Or.inr hleaves)
  obtain rfl := Option.some.inj (hlookup.symm.trans hlookup')
  exact ⟨e, he, hcarries⟩

end Held

section Items

variable [DecidableEq K]

/-- The newest events are those that are the newest of their key. -/
theorem mem_newestEvents {pieces : List (SilverPiece K P)} (h : DistinctSequences pieces)
    {e : BronzeEvent K P} : e ∈ newestEvents pieces ↔ IsNewestOf e.key pieces e := by
  rw [newestEvents, List.mem_filterMap]
  constructor
  · rintro ⟨k, -, hnew⟩
    have he : IsNewestOf k pieces e := LastWriterWins.isNewest_of_newest hnew
    obtain ⟨-, -, -, rfl⟩ := mem_eventsOfPieces.1 he.1
    exact he
  · intro he
    obtain ⟨piece, hpiece, hin, -⟩ := mem_eventsOfPieces.1 he.1
    refine ⟨e.key, List.mem_dedup.2 (List.mem_map_of_mem (List.mem_flatMap.2 ⟨piece, hpiece, hin⟩)),
      (LastWriterWins.newest_eq_some_iff (h.stampsIdentify e.key)).2 he⟩

/-- There is one for each key. -/
theorem nodup_key_newestEvents (pieces : List (SilverPiece K P)) :
    ((newestEvents pieces).map fun e ↦ e.key).Nodup := by
  have hdedup : ((((pieces.flatMap SilverPiece.events).map fun e ↦ e.key).dedup).map id).Nodup := by
    rw [List.map_id]
    exact List.nodup_dedup _
  refine MergeInto.nodup_map_filterMap hdedup fun k _ e hnew ↦ ?_
  obtain ⟨-, -, -, hk⟩ := mem_eventsOfPieces.1 (LastWriterWins.isNewest_of_newest hnew).1
  exact hk

/-- The newest event of a key is one event. -/
theorem eq_of_isNewestOf {pieces : List (SilverPiece K P)} (h : DistinctSequences pieces) {k : K}
    {e e' : BronzeEvent K P} (he : IsNewestOf k pieces e) (he' : IsNewestOf k pieces e') : e = e' :=
  LastWriterWins.eq_of_isNewest (h.stampsIdentify k) he he'

variable {fns : SparkFunctions} {cleanItem : OrderItemColumns → OrderItemColumns}
  {targetExists : Bool} {pieces : List (SilverPiece ℤ OrderItemColumns)}
  {items : List (SilverRow ℤ OrderItemColumns)}

/-- **The items Silver shows of an order are those the source has.** -/
theorem activeItems_perm_sourceItems (h : DistinctSequences pieces) (hlast : DeletesLast pieces)
    (hrun : mergeTables fns cleanItem (emptyTable ℤ OrderItemColumns targetExists) pieces =
      some (some items)) (orderId : ℤ) :
    (activeItems items orderId).Perm (sourceItems cleanItem pieces orderId) := by
  have hkeys := (holds_mergeTables h hrun).1
  -- keyed by the item id, both sides have no duplicates and the same members
  let keyed : SilverRow ℤ OrderItemColumns → ℤ × OrderItemColumns :=
    fun row ↦ (row.key, row.payload)
  let keyedEvent : BronzeEvent ℤ OrderItemColumns → ℤ × OrderItemColumns :=
    fun e ↦ (e.key, cleanItem e.payload)
  have hperm : ((items.filter fun row ↦ !row.isDeleted ∧ row.payload.orderId = orderId).map
      keyed).Perm (((newestEvents pieces).filter fun e ↦
        e.operation ≠ .delete ∧ (cleanItem e.payload).orderId = orderId).map keyedEvent) := by
    refine (List.perm_ext_iff_of_nodup ?_ ?_).2 fun ⟨key, payload⟩ ↦ ?_
    · refine List.Nodup.of_map Prod.fst ?_
      rw [List.map_map]
      exact hkeys.sublist (List.filter_sublist.map _)
    · refine List.Nodup.of_map Prod.fst ?_
      rw [List.map_map]
      exact (nodup_key_newestEvents pieces).sublist (List.filter_sublist.map _)
    · simp only [List.mem_map, List.mem_filter, decide_eq_true_eq, Bool.decide_and,
        Bool.and_eq_true, Bool.not_eq_true', keyed, keyedEvent, Prod.mk.injEq]
      constructor
      · rintro ⟨row, ⟨hrow, hactive, horder⟩, rfl, rfl⟩
        have hlookup := (MergeInto.lookup_eq_some_iff hkeys).2 ⟨hrow, rfl⟩
        obtain ⟨e, he, hcarries⟩ := exists_carries_of_lookup h hlast hrun hlookup
        have hop : e.operation ≠ .delete := fun hdelete ↦ by
          rw [hcarries.isDeleted.2 hdelete] at hactive
          cases hactive
        have hpayload := hcarries.payload hop
        rw [hcarries.key] at he
        exact ⟨e, ⟨(mem_newestEvents h).2 he, hop, hpayload ▸ horder⟩, hcarries.key.symm,
          hpayload.symm⟩
      · rintro ⟨e, ⟨hmem, hop, horder⟩, rfl, rfl⟩
        have he := (mem_newestEvents h).1 hmem
        obtain ⟨row, hlookup, hcarries⟩ := carries_of_isNewestOf h hlast hrun he (Or.inl hop)
        have hpayload := hcarries.payload hop
        refine ⟨row, ⟨(MergeInto.mem_of_lookup hlookup).1, ?_, by rw [hpayload]; exact horder⟩,
          hcarries.key, hpayload⟩
        exact Bool.eq_false_of_not_eq_true fun hdel ↦ hop (hcarries.isDeleted.1 hdel)
  have hsnd := hperm.map Prod.snd
  rw [List.map_map, List.map_map] at hsnd
  exact hsnd

end Items

/-! ### Readiness -/

section Ready

variable {orders : List (SilverRow ℤ OrderColumns)} {items : List (SilverRow ℤ OrderItemColumns)}

/-- With distinct order ids each scoped order is checked with its own row, or without one. -/
theorem sourceFactReadyForGold_some_iff (hkeys : (orders.map fun row ↦ row.key).Nodup)
    (ids : List ℤ) : sourceFactReadyForGold orders items (some ids) = true ↔
      ∀ orderId ∈ ids, orderIncomplete (MergeInto.lookup (fun row ↦ row.key) orderId orders)
        (activeItems items orderId) = false := by
  have hjoin : Relational.leftJoin (fun orderId (row : SilverRow ℤ OrderColumns) ↦
      decide (orderId = row.key)) ids orders =
        ids.map fun orderId ↦ (orderId, MergeInto.lookup (fun row ↦ row.key) orderId orders) := by
    rw [Relational.leftJoin_eq_map fun orderId _ ↦
      Relational.length_filter_eq_le_one hkeys orderId]
    refine List.map_congr_left fun orderId _ ↦ ?_
    rw [MergeInto.lookup]
    congr 2
    funext row
    exact decide_eq_decide.2 eq_comm
  rw [sourceFactReadyForGold, hjoin, List.all_map, List.all_eq_true]
  simp only [Function.comp_apply, Bool.not_eq_true']

/-- An amount does not differ from itself, and null does not exceed anything. -/
@[simp] theorem exceedsTolerance_self (a : Option ℤ) : exceedsTolerance a a = false := by
  rcases a with - | a
  · rfl
  · simp [exceedsTolerance]

/-- The gross is a sum, whatever the order of the items. -/
theorem actualGross_eq_of_perm {xs ys : List OrderItemColumns} (h : xs.Perm ys) :
    actualGross xs = actualGross ys :=
  sumOf_eq_of_perm (h.map _)

/-- So is the tax. -/
theorem actualTax_eq_of_perm {xs ys : List OrderItemColumns} (h : xs.Perm ys) :
    actualTax xs = actualTax ys :=
  sumOf_eq_of_perm (h.map _)

variable {fns : SparkFunctions} {cleanOrder : OrderColumns → OrderColumns}
  {cleanItem : OrderItemColumns → OrderItemColumns} {ordersExist itemsExist : Bool}
  {orderPieces : List (SilverPiece ℤ OrderColumns)}
  {itemPieces : List (SilverPiece ℤ OrderItemColumns)}

variable (ordersExist orderPieces) in
/-- **Every deleted order has left a row**: some piece had the order and was not a CDC micro-batch,
merged into an existing table, whose newest event of the order is the delete. -/
def DeletedOrdersLeaveRows : Prop :=
  ∀ orderId, OrderDeleted orderPieces orderId →
    ∃ piece ∈ effectivePieces ordersExist orderPieces, piece.leavesNoRow orderId = false

/-- A settled order with a row is complete. -/
theorem orderIncomplete_of_settled (hdistinct : DistinctSequences orderPieces)
    (hlast : DeletesLast orderPieces)
    (hrun : mergeTables fns cleanOrder (emptyTable ℤ OrderColumns ordersExist) orderPieces =
      some (some orders)) {orderId : ℤ}
    (hitems : (activeItems items orderId).Perm (sourceItems cleanItem itemPieces orderId))
    (hsettled : OrderSettled cleanOrder cleanItem orderPieces itemPieces orderId)
    (hrow : OrderDeleted orderPieces orderId →
      ∃ piece ∈ effectivePieces ordersExist orderPieces, piece.leavesNoRow orderId = false) :
    orderIncomplete (MergeInto.lookup (fun row ↦ row.key) orderId orders)
      (activeItems items orderId) = false := by
  rcases hsettled with ⟨hdeleted, hnone⟩ | ⟨e, he, hop, hsome, hgross, htax⟩
  · obtain ⟨e, he, hop⟩ := hdeleted
    obtain ⟨row, hlookup, hcarries⟩ :=
      carries_of_isNewestOf hdistinct hlast hrun he (Or.inr (hrow ⟨e, he, hop⟩))
    rw [hnone] at hitems
    rw [hlookup, orderIncomplete, if_pos (hcarries.isDeleted.2 hop), List.perm_nil.1 hitems]
    rfl
  · obtain ⟨row, hlookup, hcarries⟩ := carries_of_isNewestOf hdistinct hlast hrun he (Or.inl hop)
    have hactive : ¬row.isDeleted = true := fun hdel ↦ hop (hcarries.isDeleted.1 hdel)
    rw [hlookup, orderIncomplete, if_neg hactive, hcarries.payload hop,
      actualGross_eq_of_perm hitems, actualTax_eq_of_perm hitems, ← hgross, ← htax,
      exceedsTolerance_self, exceedsTolerance_self, Option.isNone_eq_false_iff.2 hsome]
    rfl

/-- **Readiness of the orders.** Let the events of orders and items, cut into Batch increments and
CDC micro-batches in any way in which deletes come last, be merged into tables that were empty or
missing, and let the source be done with every order that appears. Then the check over all orders
passes; and it passes for every set of the orders that appear exactly when every deleted order has
left a row. -/
theorem sourceFactReady_iff (fns : SparkFunctions) (cleanOrder : OrderColumns → OrderColumns)
    (cleanItem : OrderItemColumns → OrderItemColumns) (ordersExist itemsExist : Bool)
    (orderPieces : List (SilverPiece ℤ OrderColumns))
    (itemPieces : List (SilverPiece ℤ OrderItemColumns))
    (orders : List (SilverRow ℤ OrderColumns)) (items : List (SilverRow ℤ OrderItemColumns))
    (hdistinct : DistinctSequences orderPieces ∧ DistinctSequences itemPieces)
    (hlast : DeletesLast orderPieces ∧ DeletesLast itemPieces)
    (hsettled : ∀ orderId ∈ appearedOrderIds cleanItem orderPieces itemPieces,
      OrderSettled cleanOrder cleanItem orderPieces itemPieces orderId)
    (horders : mergeTables fns cleanOrder (emptyTable ℤ OrderColumns ordersExist) orderPieces =
      some (some orders))
    (hitems : mergeTables fns cleanItem (emptyTable ℤ OrderItemColumns itemsExist) itemPieces =
      some (some items)) :
    sourceFactReadyForGold orders items none = true ∧
      ((∀ ids ⊆ appearedOrderIds cleanItem orderPieces itemPieces,
        sourceFactReadyForGold orders items (some ids) = true) ↔
          DeletedOrdersLeaveRows ordersExist orderPieces) := by
  have hkeys := (holds_mergeTables hdistinct.1 horders).1
  have hperm := activeItems_perm_sourceItems hdistinct.2 hlast.2 hitems
  have happeared : ∀ {orderId e}, IsNewestOf orderId orderPieces e →
      orderId ∈ appearedOrderIds cleanItem orderPieces itemPieces := by
    intro orderId e he
    obtain ⟨piece, hpiece, hin, rfl⟩ := mem_eventsOfPieces.1 he.1
    exact List.mem_append_left _
      (List.mem_map_of_mem (List.mem_flatMap.2 ⟨piece, hpiece, hin⟩))
  refine ⟨?_, fun hready orderId hdeleted ↦ ?_, fun hleaves ids hids ↦ ?_⟩
  · -- an order that is shown is not deleted in the source
    rw [sourceFactReadyForGold, List.all_eq_true]
    intro row hrow
    rw [List.mem_filter, Bool.not_eq_true'] at hrow
    have hlookup := (MergeInto.lookup_eq_some_iff hkeys).2 ⟨hrow.1, rfl⟩
    obtain ⟨e, he, hcarries⟩ := exists_carries_of_lookup hdistinct.1 hlast.1 horders hlookup
    have hop : e.operation ≠ .delete := fun hdelete ↦ by
      rw [hcarries.isDeleted.2 hdelete] at hrow
      cases hrow.2
    have hcomplete := orderIncomplete_of_settled hdistinct.1 hlast.1 horders (hperm row.key)
      (hsettled _ (happeared he)) fun ⟨d, hd, hdelete⟩ ↦
        absurd (eq_of_isNewestOf hdistinct.1 hd he ▸ hdelete) hop
    rw [hlookup] at hcomplete
    rw [hcomplete]
    rfl
  · -- a deleted order that left no row looks like one that has not arrived
    by_contra hno
    have hnone : MergeInto.lookup (fun row ↦ row.key) orderId orders = none :=
      lookup_eq_none_of_leavesNoRow hdistinct.1 horders fun piece hpiece ↦ by
        by_contra hfalse
        exact hno ⟨piece, hpiece, Bool.eq_false_of_not_eq_true hfalse⟩
    obtain ⟨e, he, -⟩ := hdeleted
    have hone := (sourceFactReadyForGold_some_iff hkeys [orderId]).1
      (hready [orderId] (List.cons_subset.2 ⟨happeared he, List.nil_subset _⟩)) orderId
      (List.mem_singleton.2 rfl)
    rw [hnone] at hone
    cases hone
  · refine (sourceFactReadyForGold_some_iff hkeys ids).2 fun orderId hid ↦ ?_
    exact orderIncomplete_of_settled hdistinct.1 hlast.1 horders (hperm orderId)
      (hsettled orderId (hids hid)) (hleaves orderId)

/-! ### An order that comes and goes in one micro-batch -/

/-- An event of an order with subtotal 100 and tax 5. -/
def orderChange (id : ℤ) (operation : Operation) (position : ℤ) : BronzeEvent ℤ OrderColumns where
  key := id
  createdAt := 0
  payload :=
    { publicOrderId := none
      customerId := none
      orderNumber := none
      orderStatus := none
      paymentStatus := none
      shippingAddressId := none
      billingAddressId := none
      shippingAddressSnapshot := none
      billingAddressSnapshot := none
      subtotalAmount := some 100
      shippingAmount := some 0
      taxAmount := some 5
      discountAmount := some 0
      totalAmount := some 105
      currency := none
      updatedAt := none }
  operation := operation
  eventOccurredAt := some position
  eventId := .text []
  batchId := []
  isStreamingCdc := true
  sourceLsn := some position
  kafkaPartition := some 0
  kafkaOffset := some position

/-- An event of an item with gross 100 and tax 5. -/
def itemChange (id orderId : ℤ) (operation : Operation) (position : ℤ) :
    BronzeEvent ℤ OrderItemColumns where
  key := id
  createdAt := 0
  payload :=
    { orderId := orderId
      shopId := none
      productId := none
      productVariantId := none
      productNameSnapshot := none
      productSkuSnapshot := none
      variantNameSnapshot := none
      variantSkuSnapshot := none
      variantOptionsSnapshot := none
      quantity := some 2
      unitPrice := some 50
      currency := none
      taxAmount := some 5
      discountAmount := some 0
      itemSubtotal := some 100
      itemTotal := some 105
      updatedAt := none }
  operation := operation
  eventOccurredAt := some position
  eventId := .text []
  batchId := []
  isStreamingCdc := true
  sourceLsn := some position
  kafkaPartition := some 0
  kafkaOffset := some position

instance (pieces : List (SilverPiece ℤ P)) : Decidable (DeletesLast pieces) :=
  inferInstanceAs (Decidable ((∀ d ∈ pieces.flatMap SilverPiece.events, d.operation = .delete →
    ∀ x ∈ pieces.flatMap SilverPiece.events, x.key = d.key → x.sequence ≤ d.sequence) ∧
    (pieces.map SilverPiece.events).Pairwise fun earlier later ↦
      ∀ d ∈ earlier, d.operation = .delete → ∀ x ∈ later, x.key ≠ d.key))

instance (k : ℤ) (pieces : List (SilverPiece ℤ OrderColumns)) (e : BronzeEvent ℤ OrderColumns) :
    Decidable (IsNewestOf k pieces e) :=
  inferInstanceAs (Decidable (e ∈ eventsOfPieces k pieces ∧
    ∀ x ∈ eventsOfPieces k pieces, x.sequence ≤ e.sequence))

/-- Order 1 comes in one micro-batch and is deleted in the next one; order 2 stays, with an item. -/
def twoMicroBatches : List (SilverPiece ℤ OrderColumns) :=
  [.cdc [orderChange 1 .insert 1, orderChange 2 .insert 2], .cdc [orderChange 1 .delete 4]]

/-- Order 1 and its delete come in one micro-batch. -/
def oneMicroBatch : List (SilverPiece ℤ OrderColumns) :=
  [.cdc [orderChange 1 .insert 1, orderChange 1 .delete 4]]

/-- An order that comes in one micro-batch and is deleted in the next leaves a tombstone, and every
set of orders is ready. -/
theorem sourceFactReady_iff_twoMicroBatches :
    ∃ orders items,
      mergeTables .plain id (emptyTable ℤ OrderColumns true) twoMicroBatches = some (some orders) ∧
      mergeTables .plain id (emptyTable ℤ OrderItemColumns true)
        [.cdc [itemChange 7 2 .insert 3]] = some (some items) ∧
      ∀ ids ⊆ appearedOrderIds id twoMicroBatches [.cdc [itemChange 7 2 .insert 3]],
        sourceFactReadyForGold orders items (some ids) = true := by
  refine ⟨_, _, rfl, rfl, ?_⟩
  refine (sourceFactReady_iff .plain id id true true twoMicroBatches
    [.cdc [itemChange 7 2 .insert 3]] _ _ (by decide) (by decide) ?_ rfl rfl).2.2 ?_
  · intro orderId hid
    have hcases : orderId = 1 ∨ orderId = 2 := by
      revert orderId
      decide
    rcases hcases with rfl | rfl
    · exact Or.inl ⟨⟨orderChange 1 .delete 4, by decide, rfl⟩, by decide⟩
    · exact Or.inr ⟨orderChange 2 .insert 2, by decide, by decide, by decide, by decide, by decide⟩
  · rintro orderId ⟨e, he, hdelete⟩
    obtain ⟨piece, hpiece, hin, rfl⟩ := mem_eventsOfPieces.1 he.1
    have hone : ∀ e ∈ twoMicroBatches.flatMap SilverPiece.events, e.operation = .delete →
        e.key = 1 := by decide
    rw [hone e (List.mem_flatMap.2 ⟨piece, hpiece, hin⟩) hdelete]
    exact ⟨.cdc [orderChange 1 .insert 1, orderChange 2 .insert 2], List.mem_cons_self, by decide⟩

/-- **An order that comes and goes in one micro-batch is never ready**: its delete leaves no
tombstone, and without a row it counts as not yet arrived. -/
theorem sourceFactReady_blocked :
    ¬∀ (fns : SparkFunctions) (cleanOrder : OrderColumns → OrderColumns)
      (cleanItem : OrderItemColumns → OrderItemColumns) (ordersExist itemsExist : Bool)
      (orderPieces : List (SilverPiece ℤ OrderColumns))
      (itemPieces : List (SilverPiece ℤ OrderItemColumns)) orders items,
      DistinctSequences orderPieces ∧ DistinctSequences itemPieces →
      DeletesLast orderPieces ∧ DeletesLast itemPieces →
      (∀ orderId ∈ appearedOrderIds cleanItem orderPieces itemPieces,
        OrderSettled cleanOrder cleanItem orderPieces itemPieces orderId) →
      mergeTables fns cleanOrder (emptyTable ℤ OrderColumns ordersExist) orderPieces =
        some (some orders) →
      mergeTables fns cleanItem (emptyTable ℤ OrderItemColumns itemsExist) itemPieces =
        some (some items) →
      ∀ ids ⊆ appearedOrderIds cleanItem orderPieces itemPieces,
        sourceFactReadyForGold orders items (some ids) = true := by
  intro hready
  have hsettled : ∀ orderId ∈ appearedOrderIds id oneMicroBatch [],
      OrderSettled id id oneMicroBatch [] orderId := by
    intro orderId hid
    obtain rfl : orderId = 1 := by
      revert orderId
      decide
    exact Or.inl ⟨⟨orderChange 1 .delete 4, by decide, rfl⟩, by decide⟩
  have hone := hready .plain id id true true oneMicroBatch [] [] [] (by decide) (by decide)
    hsettled (by decide) rfl [1] (by decide)
  cases hone

end Ready

end LakehousePipeline
