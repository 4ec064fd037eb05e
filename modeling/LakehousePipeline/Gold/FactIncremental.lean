import LakehousePipeline.Gold.Changes
import LakehousePipeline.Gold.FactLocality
import LakehousePipeline.Gold.Quality

/-!
# The incremental fact step

An incremental run rebuilds the facts of the affected orders from a scoped read of Silver and of the
dimensions, and merges them over the facts it finds, deleting the facts of those orders that are no
longer built. If the feeds have an image of every row that appeared or disappeared, the result is
the full build of the later state: for an affected order because the scopes hold all its rows, for
any other order because none of its rows changed (`perm_buildFactSales_incrementalFacts`).

## Two uses of locality

The facts of an order depend on the rows of that order (`filter_buildFactSales_eq`), and the step
needs this twice, with different pairs of states.

* For an affected order the later state is compared with its own scoped read.
  `agreeOnOrder_factScope` and `agreeOnMembers_factDimensionScope` say that a scope leaves out
  nothing an order in it needs.
* For any other order the later state is compared with the earlier one. If a row of the order
  appeared or disappeared, the feed has an image of it, and that image makes the order affected
  (`agreeOnOrder_of_not_affected`). A row that moves from one order to another has an image on each
  side, so both orders are affected.

## What the feeds have to cover

`CoversDifference` asks for an image of every *visible* row in the symmetric difference of two
states. The change data feed of a merge has them, as a merge of Silver removes no key: a row that is
no longer shown has become a tombstone, and the feed has the image before it
(`coversDifference_mergeFeed`). Ranges of several commits cover the difference of their ends
(`CoversDifference.append`).

The merge works on keys, the builder on lists. So the result is stated as a permutation, and the
proof compares the two key by key (`mergeFacts_spec`).
-/

namespace LakehousePipeline

/-- The facts of the affected orders. -/
def rebuiltFacts (fns : SparkFunctions) (tables : FactSources) (dimensions : FactDimensions)
    (orderIds : List ℤ) : List FactRow :=
  buildFactSales fns (factScope tables orderIds)
    (factDimensionScope (factScope tables orderIds) dimensions)

/-- The keys of the facts of affected orders that are not built any more. -/
def staleFactKeys (existing facts : List FactRow) (orderIds : List ℤ) : List (ℤ × ℤ) :=
  ((filterIds (fun f ↦ some f.sourceOrderId) orderIds existing).map FactRow.sourceKey).filter
    fun k ↦ k ∉ facts.map FactRow.sourceKey

/-- The merge into `fact_sales`. -/
def mergeFacts (existing facts : List FactRow) (orderIds : List ℤ) :
    Option (UpsertResult FactRow) :=
  upsertTable (keyedColumns FactRow.sourceKey)
    (scopeOptions (staleFactKeys existing facts orderIds) false) (some existing) facts

/-- The fact step of `_apply_incremental`: nothing without affected orders, else the gate and the
merge. The inner result is `none` when the merge fails. -/
def incrementalFacts (fns : SparkFunctions) (gold : GoldSnapshot) (tables : FactSources)
    (orderIds : List ℤ) : Except GoldQualityError (Option (UpsertResult FactRow)) :=
  if orderIds = [] then .ok (some { rows := gold .factSales, written := false })
  else do
    let sources := factScope tables orderIds
    let facts := rebuiltFacts fns tables gold.factDimensions orderIds
    qualityRunIncremental gold facts sources.orders sources.orderItems
    pure (mergeFacts (gold .factSales) facts orderIds)

/-- An accepted step merges. -/
theorem incrementalFacts_eq_ok {fns : SparkFunctions} {gold : GoldSnapshot} {tables : FactSources}
    {orderIds : List ℤ} (hne : orderIds ≠ [])
    (hgate : qualityRunIncremental gold (rebuiltFacts fns tables gold.factDimensions orderIds)
      (factScope tables orderIds).orders (factScope tables orderIds).orderItems = .ok ()) :
    incrementalFacts fns gold tables orderIds =
      .ok (mergeFacts (gold .factSales) (rebuiltFacts fns tables gold.factDimensions orderIds)
        orderIds) := by
  rw [incrementalFacts, if_neg hne]
  simp only [hgate]
  rfl

/-! ### Scopes -/

section Scopes

variable {tables : FactSources} {dimensions : FactDimensions} {orderIds : List ℤ}

/-- A scoped read keeps the rows whose column is one of the ids; null is none of them. -/
theorem mem_filterIds {R : Type} {column : R → Option ℤ} {ids : List ℤ} {rows : List R} {row : R} :
    row ∈ filterIds column ids rows ↔ row ∈ rows ∧ ∃ id ∈ ids, column row = some id := by
  rw [filterIds, List.mem_filter, Option.any_eq_true]
  simp [and_comm]

/-- A scoped read keeps keys unique. -/
theorem uniqueKeys_factScope (h : tables.UniqueKeys) (orderIds : List ℤ) :
    (factScope tables orderIds).UniqueKeys where
  orders := h.orders.sublist (List.filter_sublist.map _)
  orderItems := h.orderItems.sublist (List.filter_sublist.map _)
  orderVouchers := h.orderVouchers.sublist (List.filter_sublist.map _)
  vouchers := h.vouchers.sublist (List.filter_sublist.map _)
  payments := h.payments.sublist (List.filter_sublist.map _)
  shipments := h.shipments.sublist (List.filter_sublist.map _)

/-- A scoped read of a dimension keeps its versions disjoint. -/
theorem disjointVersions_filterIds {A κ V : Type} {dimension : List (Scd2Row A κ V)}
    (h : DisjointVersions dimension) (ids : List ℤ) :
    DisjointVersions (filterIds (fun v ↦ v.sourceKey) ids dimension) :=
  List.Pairwise.sublist (List.Sublist.filter _ List.filter_sublist) h

/-- The same for all four SCD2 dimensions. -/
theorem disjoint_factDimensionScope (h : dimensions.Disjoint) (sources : FactSources) :
    (factDimensionScope sources dimensions).Disjoint where
  dimCustomer := disjointVersions_filterIds h.dimCustomer _
  dimShop := disjointVersions_filterIds h.dimShop _
  dimCategory := disjointVersions_filterIds h.dimCategory _
  dimProduct := disjointVersions_filterIds h.dimProduct _

/-- A scoped read of Silver shows all rows of an order in the scope. -/
theorem agreeOnOrder_factScope {orderId : ℤ} (hid : orderId ∈ orderIds) :
    AgreeOnOrder (factScope tables orderIds) tables orderId where
  orders row hrow := by simp [factScope, mem_filterIds, hrow, hid]
  orderItems row hrow := by simp [factScope, mem_filterIds, hrow, hid]
  orderVouchers row hrow := by simp [factScope, mem_filterIds, hrow, hid]
  vouchers use huse hrow row hvoucher := by
    refine ⟨fun h ↦ (mem_filterIds.1 h).1, fun h ↦ mem_filterIds.2 ⟨h, row.key, ?_, rfl⟩⟩
    exact List.mem_filterMap.2 ⟨use, huse, hvoucher⟩
  payments row hrow := by simp [factScope, mem_filterIds, hrow, hid]
  shipments row hrow := by simp [factScope, mem_filterIds, hrow, hid]

/-- A scoped read of a dimension holds all versions of a member in the scope. -/
theorem sameVersions_filterIds {A κ V : Type} (dimension : List (Scd2Row A κ V)) {ids : List ℤ}
    {member : Option ℤ} (h : ∀ k, member = some k → k ∈ ids) :
    SameVersions (filterIds (fun v ↦ v.sourceKey) ids dimension) dimension member := by
  intro k hk
  rw [filterIds, List.filter_filter]
  refine List.filter_congr fun v _ ↦ ?_
  rcases eq_or_ne v.sourceKey (some k) with hv | hv
  · simp [hv, h k hk]
  · simp [hv]

/-- **The scoped dimensions hold all versions of the members of the scoped orders.** -/
theorem agreeOnMembers_factDimensionScope (sources : FactSources) (dimensions : FactDimensions)
    (orderId : ℤ) :
    AgreeOnMembers sources (factDimensionScope sources dimensions) dimensions orderId where
  dimCustomer order horder _ :=
    sameVersions_filterIds _ fun _ hk ↦ List.mem_filterMap.2 ⟨order, horder, hk⟩
  dimProduct item hitem _ :=
    sameVersions_filterIds _ fun _ hk ↦ List.mem_filterMap.2 ⟨item, hitem, hk⟩
  dimShop item hitem _ :=
    sameVersions_filterIds _ fun _ hk ↦ List.mem_filterMap.2 ⟨item, hitem, hk⟩
  dimCategory _ _ _ p hp _ _ :=
    sameVersions_filterIds _ fun _ hk ↦ List.mem_filterMap.2 ⟨p, hp, hk⟩

end Scopes

/-! ### Feeds -/

/-- **A feed has an image of every visible row that appeared or disappeared.** -/
def CoversDifference {P : Type} (before after : List (BusinessRow ℤ P))
    (feed : Option (List (ChangeRow P))) : Prop :=
  ∀ row, ¬(row ∈ before ↔ row ∈ after) → ∃ c ∈ feed.getD [], c.row.business = row

/-- The feeds of the fact sources cover the difference of two Silver states. -/
structure ChangesCover (before after : FactSources) (changes : SilverChanges) : Prop where
  orders : CoversDifference before.orders after.orders (changes .orders)
  orderItems : CoversDifference before.orderItems after.orderItems (changes .orderItems)
  orderVouchers : CoversDifference before.orderVouchers after.orderVouchers
    (changes .orderVouchers)
  vouchers : CoversDifference before.vouchers after.vouchers (changes .vouchers)
  payments : CoversDifference before.payments after.payments (changes .payments)
  shipments : CoversDifference before.shipments after.shipments (changes .shipments)

/-- Feeds of consecutive ranges cover the difference together. -/
theorem CoversDifference.append {P : Type} {before middle after : List (BusinessRow ℤ P)}
    {feed feed' : List (ChangeRow P)} (h : CoversDifference before middle (some feed))
    (h' : CoversDifference middle after (some feed')) :
    CoversDifference before after (some (feed ++ feed')) := by
  intro row hrow
  rcases Classical.em (row ∈ before ↔ row ∈ middle) with hsame | hdiff
  · obtain ⟨c, hc, hcrow⟩ := h' row fun hsame' ↦ hrow (hsame.trans hsame')
    exact ⟨c, List.mem_append_right _ hc, hcrow⟩
  · obtain ⟨c, hc, hcrow⟩ := h row hdiff
    exact ⟨c, List.mem_append_left _ hc, hcrow⟩

/-- **The feed of a merge covers the difference**, as a Silver merge removes no key. -/
theorem coversDifference_mergeFeed {P : Type} [DecidableEq P] (before after : List (SilverRow ℤ P))
    (hbefore : (before.map fun row ↦ row.key).Nodup)
    (hkeys : ∀ row ∈ before, ∃ row' ∈ after, row'.key = row.key) :
    CoversDifference (visibleRows before) (visibleRows after) (some (mergeFeed before after)) := by
  have hvisible : ∀ {rows : List (SilverRow ℤ P)} {row : BusinessRow ℤ P},
      row ∈ visibleRows rows ↔ ∃ r ∈ rows, r.isDeleted = false ∧ r.business = row := by
    intro rows row
    simp [visibleRows, and_assoc]
  intro row hrow
  rcases not_iff.1 hrow with hrow
  rcases Classical.em (row ∈ visibleRows before) with hin | hout
  · have hgone : row ∉ visibleRows after := fun h ↦ hrow.2 h hin
    obtain ⟨old, hold, hlive, rfl⟩ := hvisible.1 hin
    obtain ⟨new, hnew, hkey⟩ := hkeys old hold
    have hlookup := (MergeInto.lookup_eq_some_iff hbefore).2 ⟨hold, hkey.symm⟩
    have hne : old ≠ new := by
      rintro rfl
      exact hgone (hvisible.2 ⟨old, hnew, hlive, rfl⟩)
    refine ⟨⟨.updatePreimage, old⟩, List.mem_flatMap.2 ⟨new, hnew, ?_⟩, rfl⟩
    simp [hlookup, hne]
  · have hnow : row ∈ visibleRows after := hrow.1 hout
    obtain ⟨new, hnew, hlive, rfl⟩ := hvisible.1 hnow
    cases hlookup : MergeInto.lookup (fun r : SilverRow ℤ P ↦ r.key) new.key before with
    | none =>
      refine ⟨⟨.insert, new⟩, List.mem_flatMap.2 ⟨new, hnew, ?_⟩, rfl⟩
      simp [hlookup]
    | some old =>
      have hne : old ≠ new := by
        rintro rfl
        exact hout (hvisible.2 ⟨old, (MergeInto.mem_of_lookup hlookup).1, hlive, rfl⟩)
      refine ⟨⟨.updatePostimage, new⟩, List.mem_flatMap.2 ⟨new, hnew, ?_⟩, rfl⟩
      simp [hlookup, hne]

/-! ### Orders that are not affected -/

section Unaffected

variable {before after : FactSources} {changes : SilverChanges} {orderId : ℤ}

/-- An id has changed if an image of its table has it. -/
theorem mem_changedIds {t : SilverTable} {column : SilverRow ℤ (SilverColumns t) → Option ℤ}
    {id : ℤ} : id ∈ changedIds changes t column ↔
      ∃ c ∈ (changes t).getD [], column c.row = some id := by
  rw [changedIds, List.mem_filterMap]

/-- The id of a row that appeared or disappeared is among the changed ids. -/
theorem mem_changedIds_of_covers {t : SilverTable}
    {before after : List (BusinessRow ℤ (SilverColumns t))}
    (h : CoversDifference before after (changes t))
    {column : SilverRow ℤ (SilverColumns t) → Option ℤ}
    (id : BusinessRow ℤ (SilverColumns t) → ℤ)
    (hcolumn : ∀ row, column row = some (id row.business))
    {row : BusinessRow ℤ (SilverColumns t)} (hrow : ¬(row ∈ before ↔ row ∈ after)) :
    id row ∈ changedIds changes t column := by
  obtain ⟨c, hc, rfl⟩ := h row hrow
  exact mem_changedIds.2 ⟨c, hc, hcolumn c.row⟩

/-- **No row of an order changed unless the order is affected.** -/
theorem agreeOnOrder_of_not_affected (h : ChangesCover before after changes)
    (hid : orderId ∉ affectedOrderIds changes after.orderVouchers) :
    AgreeOnOrder before after orderId := by
  simp only [affectedOrderIds, List.mem_append, not_or] at hid
  obtain ⟨⟨⟨⟨⟨⟨horders, hitems⟩, huses⟩, hpayments⟩, hshipments⟩, hvouchers⟩, -⟩ := hid
  constructor
  case orders =>
    intro row hrow
    refine Classical.not_not.1 fun hdiff ↦ horders ?_
    exact hrow ▸ mem_changedIds_of_covers (t := .orders) h.orders (fun r ↦ r.key)
      (fun _ ↦ rfl) hdiff
  case orderItems =>
    intro row hrow
    refine Classical.not_not.1 fun hdiff ↦ hitems ?_
    exact hrow ▸ mem_changedIds_of_covers (t := .orderItems) h.orderItems
      (fun r : OrderItem ↦ r.payload.orderId) (fun _ ↦ rfl) hdiff
  case orderVouchers =>
    intro row hrow
    refine Classical.not_not.1 fun hdiff ↦ huses ?_
    exact hrow ▸ mem_changedIds_of_covers (t := .orderVouchers) h.orderVouchers
      (fun r : OrderVoucher ↦ r.payload.orderId) (fun _ ↦ rfl) hdiff
  case payments =>
    intro row hrow
    refine Classical.not_not.1 fun hdiff ↦ hpayments ?_
    exact hrow ▸ mem_changedIds_of_covers (t := .payments) h.payments
      (fun r : Payment ↦ r.payload.orderId) (fun _ ↦ rfl) hdiff
  case shipments =>
    intro row hrow
    refine Classical.not_not.1 fun hdiff ↦ hshipments ?_
    exact hrow ▸ mem_changedIds_of_covers (t := .shipments) h.shipments
      (fun r : Shipment ↦ r.payload.orderId) (fun _ ↦ rfl) hdiff
  case vouchers =>
    intro use huse hrow row hvoucher
    refine Classical.not_not.1 fun hdiff ↦ hvouchers ?_
    have hkey : row.key ∈ changedKeys changes .vouchers :=
      mem_changedIds_of_covers (t := .vouchers) h.vouchers (fun r ↦ r.key) (fun _ ↦ rfl) hdiff
    -- the use is still there: it would be in the feed of the order vouchers otherwise
    have huse' : use ∈ after.orderVouchers := by
      refine Classical.not_not.1 fun hgone ↦ huses ?_
      refine hrow ▸ mem_changedIds_of_covers (t := .orderVouchers) h.orderVouchers
        (fun r : OrderVoucher ↦ r.payload.orderId) (fun _ ↦ rfl) fun hiff ↦ hgone (hiff.1 huse)
    refine List.mem_map.2 ⟨use, List.mem_filter.2 ⟨huse', ?_⟩, hrow⟩
    rw [hvoucher, Option.any_some, decide_eq_true hkey]

end Unaffected

/-! ### The step -/

section Step

variable {fns : SparkFunctions} {tables : FactSources} {dimensions : FactDimensions}

/-- The key of a fact row is the pair of order and item. -/
theorem nodup_sourceKey_buildFactSales (fns : SparkFunctions) (htables : tables.UniqueKeys)
    (hdims : dimensions.Disjoint) :
    ((buildFactSales fns tables dimensions).map FactRow.sourceKey).Nodup := by
  have hitems : ((buildFactSales fns tables dimensions).map fun f ↦ f.sourceOrderItemId).Nodup :=
    (map_sourceOrderItemId_perm fns htables hdims).nodup_iff.2 htables.orderItems
  refine List.Nodup.of_map Prod.snd ?_
  rwa [List.map_map]

/-- The facts of an order in two builds, key by key. -/
theorem lookup_eq_of_filter_eq {facts facts' : List FactRow} {k : ℤ × ℤ}
    (h : (facts.filter fun f ↦ f.sourceOrderId = k.1) =
      facts'.filter fun f ↦ f.sourceOrderId = k.1) :
    MergeInto.lookup FactRow.sourceKey k facts = MergeInto.lookup FactRow.sourceKey k facts' := by
  have horder : ∀ f : FactRow, f.sourceKey = k → decide (f.sourceOrderId = k.1) = true := by
    rintro f rfl
    exact decide_eq_true rfl
  rw [← MergeInto.lookup_filter horder facts, h, MergeInto.lookup_filter horder facts']

/-- A rebuilt fact belongs to an affected order. -/
theorem sourceOrderId_mem_of_rebuiltFacts {orderIds : List ℤ} (htables : tables.UniqueKeys)
    (hdims : dimensions.Disjoint) {f : FactRow}
    (hf : f ∈ rebuiltFacts fns tables dimensions orderIds) : f.sourceOrderId ∈ orderIds := by
  obtain ⟨item, hitem, before, after, rfl⟩ := mem_buildFactSales fns
    (uniqueKeys_factScope htables orderIds) (disjoint_factDimensionScope hdims _) hf
  obtain ⟨-, id, hid, hitemId⟩ := mem_filterIds.1 hitem
  rw [factRow_sourceOrderId, joinItem_orderId, Option.some.inj hitemId]
  exact hid

/-- **The rebuilt facts of an affected order are those of the full build.** -/
theorem lookup_rebuiltFacts {orderIds : List ℤ} (htables : tables.UniqueKeys)
    (hdims : dimensions.Disjoint) {k : ℤ × ℤ} (hk : k.1 ∈ orderIds) :
    MergeInto.lookup FactRow.sourceKey k (rebuiltFacts fns tables dimensions orderIds) =
      MergeInto.lookup FactRow.sourceKey k (buildFactSales fns tables dimensions) :=
  lookup_eq_of_filter_eq (filter_buildFactSales_eq (uniqueKeys_factScope htables orderIds) htables
    (disjoint_factDimensionScope hdims _) hdims (agreeOnOrder_factScope hk)
    (agreeOnMembers_factDimensionScope _ _ _))

/-- **The merge replaces the facts of the affected orders** and keeps all others. -/
theorem mergeFacts_spec (fns : SparkFunctions) {existing : List FactRow} (orderIds : List ℤ)
    (htables : tables.UniqueKeys) (hdims : dimensions.Disjoint)
    (hexisting : (existing.map FactRow.sourceKey).Nodup) :
    ∃ result, mergeFacts existing (rebuiltFacts fns tables dimensions orderIds) orderIds =
        some result ∧ (result.rows.map FactRow.sourceKey).Nodup ∧
      ∀ k : ℤ × ℤ, MergeInto.lookup FactRow.sourceKey k result.rows =
        if k.1 ∈ orderIds then
          MergeInto.lookup FactRow.sourceKey k (buildFactSales fns tables dimensions)
        else MergeInto.lookup FactRow.sourceKey k existing := by
  let facts := rebuiltFacts fns tables dimensions orderIds
  have hfacts : (facts.map FactRow.sourceKey).Nodup := nodup_sourceKey_buildFactSales fns
    (uniqueKeys_factScope htables orderIds) (disjoint_factDimensionScope hdims _)
  have hstale : ∀ {k : ℤ × ℤ}, k ∈ staleFactKeys existing facts orderIds ↔
      (∃ f ∈ existing, f.sourceOrderId ∈ orderIds ∧ f.sourceKey = k) ∧
        k ∉ facts.map FactRow.sourceKey := by
    intro k
    simp [staleFactKeys, mem_filterIds, and_assoc]
  obtain ⟨result, hresult, hnodup, hlookup⟩ := upsertTable_scope
    (staleFactKeys existing facts orderIds) false hexisting hfacts fun f hf hin ↦
      (hstale.1 hin).2 (List.mem_map_of_mem hf)
  refine ⟨result, hresult, hnodup, fun k ↦ (hlookup k).trans ?_⟩
  rcases Decidable.em (k.1 ∈ orderIds) with hk | hk
  · rw [if_pos hk, ← lookup_rebuiltFacts htables hdims hk]
    cases hnew : MergeInto.lookup FactRow.sourceKey k facts with
    | some f => rfl
    | none =>
      -- what the table holds for the key is stale
      rw [Option.none_or]
      rcases Decidable.em (k ∈ staleFactKeys existing facts orderIds) with hin | hkept
      · exact if_pos hin
      rw [if_neg hkept]
      refine MergeInto.lookup_eq_none.2 fun f hf hfk ↦ hkept (hstale.2 ⟨⟨f, hf, ?_, hfk⟩, ?_⟩)
      · rw [← hfk] at hk
        exact hk
      · intro hin
        obtain ⟨f', hf', hk'⟩ := List.mem_map.1 hin
        exact MergeInto.lookup_eq_none.1 hnew f' hf' hk'
  · have hnone : MergeInto.lookup FactRow.sourceKey k facts = none := by
      refine MergeInto.lookup_eq_none.2 fun f hf hfk ↦ hk ?_
      have hid := sourceOrderId_mem_of_rebuiltFacts htables hdims hf
      rw [← hfk]
      exact hid
    have hkept : k ∉ staleFactKeys existing facts orderIds := by
      intro hin
      obtain ⟨⟨f, -, hid, hfk⟩, -⟩ := hstale.1 hin
      rw [← hfk] at hk
      exact hk hid
    rw [hnone, Option.none_or, if_neg hkept, if_neg hk]

/-- **Incremental facts equal full facts.** Where the facts were those of the earlier state and the
feeds cover what changed, an accepted fact step leaves the facts of the later state. -/
theorem perm_buildFactSales_incrementalFacts (fns : SparkFunctions) (gold : GoldSnapshot)
    {before after : FactSources} {changes : SilverChanges} (hbefore : before.UniqueKeys)
    (hafter : after.UniqueKeys) (hdims : gold.factDimensions.Disjoint)
    (hfacts : List.Perm (α := FactRow) (gold .factSales)
      (buildFactSales fns before gold.factDimensions))
    (hchanges : ChangesCover before after changes) {result : Option (UpsertResult FactRow)}
    (hresult : incrementalFacts fns gold after (affectedOrderIds changes after.orderVouchers) =
      .ok result) :
    ∃ r, result = some r ∧ r.rows.Perm (buildFactSales fns after gold.factDimensions) := by
  have hbuildBefore := nodup_sourceKey_buildFactSales fns hbefore hdims
  have hbuildAfter := nodup_sourceKey_buildFactSales fns hafter hdims
  have hexisting : (List.map (α := FactRow) FactRow.sourceKey (gold .factSales)).Nodup :=
    (hfacts.map FactRow.sourceKey).nodup_iff.2 hbuildBefore
  -- the facts of an order that is not affected are those of either state
  have hunaffected : ∀ k : ℤ × ℤ, k.1 ∉ affectedOrderIds changes after.orderVouchers →
      MergeInto.lookup (T := FactRow) FactRow.sourceKey k (gold .factSales) =
        MergeInto.lookup FactRow.sourceKey k (buildFactSales fns after gold.factDimensions) := by
    intro k hk
    rw [MergeInto.lookup_eq_of_perm hexisting hfacts]
    exact lookup_eq_of_filter_eq (filter_buildFactSales_eq hbefore hafter hdims hdims
      (agreeOnOrder_of_not_affected hchanges hk)
      ⟨fun _ _ _ _ _ ↦ rfl, fun _ _ _ _ _ ↦ rfl, fun _ _ _ _ _ ↦ rfl,
        fun _ _ _ _ _ _ _ _ _ ↦ rfl⟩)
  rw [incrementalFacts] at hresult
  split at hresult
  · rename_i hnone
    refine ⟨_, (Except.ok.inj hresult).symm, ?_⟩
    refine MergeInto.perm_of_lookup_eq hexisting hbuildAfter fun k ↦ hunaffected k ?_
    rw [hnone]
    exact List.not_mem_nil
  · obtain ⟨⟨⟩, -, hmerge⟩ := Checks.exists_of_bind_eq_ok hresult
    obtain ⟨r, hr, hnodup, hlookup⟩ := mergeFacts_spec fns
      (affectedOrderIds changes after.orderVouchers) hafter hdims hexisting
    refine ⟨r, (Except.ok.inj hmerge).symm.trans hr, ?_⟩
    refine MergeInto.perm_of_lookup_eq hnodup hbuildAfter fun k ↦ ?_
    rw [hlookup]
    split
    · rfl
    · rename_i hk
      exact hunaffected k hk

end Step

/-! ### An item that moves -/

/-- A row as Silver stores it. -/
def storedRow {P : Type} (row : BusinessRow ℤ P) : SilverRow ℤ P where
  key := row.key
  createdAt := row.createdAt
  payload := row.payload
  operation := .update
  isDeleted := false
  eventOccurredAt := some row.createdAt
  bronzeEventId := []
  bronzeBatchId := []
  ingestionMode := .batch
  ingestionPriority := 1
  sourceEventSequence := none
  sourceEventSubsequence := none
  sourceLsn := none
  kafkaPartition := none
  kafkaOffset := none

/-- Two orders before item 12 moves from the first to the second. -/
def beforeMove : FactSources :=
  { smallSources with
    orders := [smallOrder 1 533 50 20 20, smallOrder 2 100 10 5 0, smallOrder 3 70 0 0 0]
    orderItems := [smallItem 1 11 21 1 333 10 20, smallItem 1 12 21 2 100 10 0,
      smallItem 2 21 21 1 100 5 0, smallItem 3 31 21 1 70 0 0] }

/-- The same orders afterwards. -/
def afterMove : FactSources :=
  { smallSources with
    orders := [smallOrder 3 70 0 0 0, smallOrder 1 333 50 10 20, smallOrder 2 300 10 15 0]
    orderItems := [smallItem 1 11 21 1 333 10 20, smallItem 2 21 21 1 100 5 0,
      smallItem 3 31 21 1 70 0 0, smallItem 2 12 21 2 100 10 0] }

/-- The feeds of the move. -/
def moveChanges : SilverChanges
  | .orders => some (mergeFeed (P := OrderColumns) (beforeMove.orders.map storedRow)
      (afterMove.orders.map storedRow))
  | .orderItems => some (mergeFeed (P := OrderItemColumns) (beforeMove.orderItems.map storedRow)
      (afterMove.orderItems.map storedRow))
  | _ => none

/-- The Gold tables before the move. -/
def goldBeforeMove : GoldSnapshot
  | .dimCustomer => smallDimensions.dimCustomer
  | .dimDate => buildDimDate .plain beforeMove.orders
  | .dimTime => buildDimTime beforeMove.orders
  | .dimLocation => buildDimLocation .plain [] beforeMove.orders
  | .dimShop => smallDimensions.dimShop
  | .dimCategory => smallDimensions.dimCategory
  | .dimProduct => smallDimensions.dimProduct
  | .dimPromotion => buildDimPromotion .plain [] []
  | .dimPayment => buildDimPayment .plain beforeMove.payments
  | .dimShipping => buildDimShipping .plain []
  | .factSales => buildFactSales .plain beforeMove smallDimensions

/-- No key occurs twice before the move. -/
theorem uniqueKeys_beforeMove : beforeMove.UniqueKeys := by
  constructor <;> decide

/-- Nor after it. -/
theorem uniqueKeys_afterMove : afterMove.UniqueKeys := by
  constructor <;> decide

/-- Where nothing changed, any feed covers the difference. -/
theorem CoversDifference.refl {P : Type} (rows : List (BusinessRow ℤ P))
    (feed : Option (List (ChangeRow P))) : CoversDifference rows rows feed :=
  fun _ hrow ↦ absurd Iff.rfl hrow

/-- The feeds of the two merged tables cover the move; the other tables stay as they are. -/
theorem changesCover_move : ChangesCover beforeMove afterMove moveChanges where
  orders := coversDifference_mergeFeed (beforeMove.orders.map storedRow)
    (afterMove.orders.map storedRow) (by decide) (by decide)
  orderItems := coversDifference_mergeFeed (beforeMove.orderItems.map storedRow)
    (afterMove.orderItems.map storedRow) (by decide) (by decide)
  orderVouchers := .refl _ _
  vouchers := .refl _ _
  payments := .refl _ _
  shipments := .refl _ _

/-- The affected orders of the move. -/
def movedOrderIds : List ℤ :=
  affectedOrderIds moveChanges afterMove.orderVouchers

example : movedOrderIds = [1, 1, 2, 2, 1, 2] := by
  decide

/-- The orders on both sides of the move are rebuilt, the third is left alone. -/
theorem perm_buildFactSales_move : ∃ r, mergeFacts (goldBeforeMove .factSales)
      (rebuiltFacts .plain afterMove smallDimensions movedOrderIds) movedOrderIds = some r ∧
    r.rows.Perm (buildFactSales .plain afterMove smallDimensions) :=
  perm_buildFactSales_incrementalFacts .plain goldBeforeMove uniqueKeys_beforeMove
    uniqueKeys_afterMove disjoint_smallDimensions (List.Perm.refl _) changesCover_move
    (incrementalFacts_eq_ok (by decide) (by decide))

end LakehousePipeline
