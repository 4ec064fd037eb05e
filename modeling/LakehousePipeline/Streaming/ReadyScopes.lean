import LakehousePipeline.Gold.FactIncremental
import LakehousePipeline.Gold.FactMoney
import LakehousePipeline.Streaming.Readiness

/-!
# What a passed readiness check is worth

The readiness check compares the subtotal and the tax of an order with its items, each up to a cent.
The reconciliation of Gold also compares the net amount, where both differences come together: two
orders pass the first check with the same differences, and the second rejects the one in which they
have the same sign (`hasMonetaryMismatch_of_ready`).

## One order, twice

Both checks add up the items of an order, the first as they are in Silver and the second from the
facts built from them. `factSums_rebuiltFacts` says that these sums agree where the header follows
the money convention (`HeaderConvention`): the facts of an order have the gross and the tax of its
items, and its shipping and its discounts are allocated without a remainder. So of the comparisons
of the second check

* gross and tax are the comparisons of the first, up to the same cent;
* shipping and discount have no difference at all;
* only the net amount is new, the sum of the four with their signs. It is off by the difference of
  the gross and that of the tax together, and so by two cents at most.

`FailsNoOther` states the first two points, for the order itself and not only for the verdict.

## The two scopes

The check over all orders starts from those that are shown, the check over given ids from the ids.
What the first does not see are ids without an order and orders that are deleted, and
`fullScopeReady_iff` says of both what is asked of them.
-/

namespace LakehousePipeline

/-! ### Tolerances -/

section Tolerance

/-- The two modules of the source have the same comparison. -/
theorem differByMoreThanTolerance_eq (a b : Option ℤ) :
    differByMoreThanTolerance a b = exceedsTolerance a b := by
  rcases a with - | a
  · rfl
  · rcases b with - | b <;> rfl

/-- Two amounts differ if they are more than a cent apart. -/
theorem exceedsTolerance_some_iff (a b : ℤ) :
    exceedsTolerance (some a) (some b) = true ↔ 1 < (a - b).natAbs :=
  decide_eq_true_iff

/-- Adding an amount to both sides and taking one away changes no difference. -/
theorem exceedsTolerance_minus_plus (a b : Option ℤ) (shipping discount : ℤ) :
    exceedsTolerance (minus (plus a (some shipping)) (some discount))
      (minus (plus b (some shipping)) (some discount)) = exceedsTolerance a b := by
  rcases a with - | a
  · rfl
  · rcases b with - | b
    · rfl
    · rw [Bool.eq_iff_iff]
      show exceedsTolerance (some (a + shipping - discount))
        (some (b + shipping - discount)) = true ↔ exceedsTolerance (some a) (some b) = true
      rw [exceedsTolerance_some_iff, exceedsTolerance_some_iff]
      omega

/-- What shipping and discount make a total of is not null. -/
theorem eq_some_of_minus_plus {a : Option ℤ} {shipping discount total : ℤ}
    (h : minus (plus a (some shipping)) (some discount) = some total) :
    a = some (total - shipping + discount) := by
  rcases a with - | a
  · cases h
  · obtain rfl : a + shipping - discount = total := Option.some.inj h
    exact congrArg some (by omega)

/-- Two tolerances add up. -/
theorem natAbs_le_two_of_exceedsTolerance {a b c d : Option ℤ}
    (hac : exceedsTolerance a c = false) (hbd : exceedsTolerance b d = false) {x y : ℤ}
    (hx : plus a b = some x) (hy : plus c d = some y) : (x - y).natAbs ≤ 2 := by
  obtain ⟨a, b, rfl, rfl, rfl⟩ := Option.map₂_eq_some_iff.1 hx
  obtain ⟨c, d, rfl, rfl, rfl⟩ := Option.map₂_eq_some_iff.1 hy
  have hac := mt (exceedsTolerance_some_iff a c).2 (Bool.eq_false_iff.1 hac)
  have hbd := mt (exceedsTolerance_some_iff b d).2 (Bool.eq_false_iff.1 hbd)
  omega

end Tolerance

/-! ### The orders of a ready scope -/

/-- **The money convention of an order header**: its discount is that of its items and its vouchers,
and its total is made of the other four amounts. -/
structure HeaderConvention (tables : FactSources) (order : Order) : Prop where
  items_hasAmounts : ∀ item ∈ tables.orderItems.filter fun item ↦ item.payload.orderId = order.key,
    item.payload.HasAmounts
  shipping : order.payload.shippingAmount.isSome = true
  discount : order.payload.discountAmount = some
    (((tables.orderItems.filter fun item ↦ item.payload.orderId = order.key).map
      fun item ↦ item.payload.discount).sum +
    ((tables.orderVouchers.filter fun use ↦ use.payload.orderId = order.key).map
      fun use ↦ use.payload.discountAmount.getD 0).sum)
  total : order.payload.totalAmount = minus (plus (plus order.payload.subtotalAmount
    order.payload.taxAmount) order.payload.shippingAmount) order.payload.discountAmount

/-- The net amount of the facts of an order, as `_assert_reconciliation` adds it up. -/
def actualNet (facts : List FactRow) (orderId : ℤ) : Option ℤ :=
  sumOf ((facts.filter fun f ↦ f.sourceOrderId = orderId).map FactRow.netSalesAmount)

/-- Another amount of the facts of an order, added up likewise. -/
def actualSum (facts : List FactRow) (orderId : ℤ) (column : FactRow → Option ℤ) : Option ℤ :=
  sumOf ((facts.filter fun f ↦ f.sourceOrderId = orderId).map column)

/-- **The order fails none of the comparisons but the last**: it has a net amount, and its facts
add up to the gross, the discount, the tax and the shipping of its header, each up to a cent. -/
structure FailsNoOther (facts : List FactRow) (order : Order) : Prop where
  net : (actualNet facts order.key).isNone = false
  gross : differByMoreThanTolerance order.payload.subtotalAmount
    (actualSum facts order.key FactRow.grossSalesAmount) = false
  discount : differByMoreThanTolerance order.payload.discountAmount
    (actualSum facts order.key FactRow.totalDiscountAmount) = false
  tax : differByMoreThanTolerance order.payload.taxAmount
    (actualSum facts order.key FactRow.taxAmount) = false
  shipping : differByMoreThanTolerance order.payload.shippingAmount
    (actualSum facts order.key FactRow.shippingAmountAllocated) = false

/-- Then the check comes down to the net amount. -/
theorem FailsNoOther.hasMonetaryMismatch_eq {facts : List FactRow} {order : Order}
    (h : FailsNoOther facts order) :
    hasMonetaryMismatch facts order =
      differByMoreThanTolerance order.payload.totalAmount (actualNet facts order.key) := by
  show ((actualNet facts order.key).isNone ||
    differByMoreThanTolerance order.payload.subtotalAmount
      (actualSum facts order.key FactRow.grossSalesAmount) ||
    differByMoreThanTolerance order.payload.discountAmount
      (actualSum facts order.key FactRow.totalDiscountAmount) ||
    differByMoreThanTolerance order.payload.taxAmount
      (actualSum facts order.key FactRow.taxAmount) ||
    differByMoreThanTolerance order.payload.shippingAmount
      (actualSum facts order.key FactRow.shippingAmountAllocated) || _) = _
  rw [h.net, h.gross, h.discount, h.tax, h.shipping]
  rfl

section Ready

variable {lake : SilverLake} {orderIds : List ℤ} {order : Order}

/-- Every Silver table holds a key once. -/
def SilverLake.UniqueKeys (lake : SilverLake) : Prop :=
  ∀ t, ((lake.currentRows t).map fun row ↦ row.key).Nodup

/-- The rows that are shown have distinct keys. -/
theorem SilverLake.UniqueKeys.rows (h : lake.UniqueKeys) (t : SilverTable) :
    ((lake.rows t).map fun row ↦ row.key).Nodup :=
  nodup_key_visibleRows (h t)

/-- In particular the tables the facts are built from. -/
theorem SilverLake.UniqueKeys.factSources (h : lake.UniqueKeys) : lake.factSources.UniqueKeys where
  orders := h.rows .orders
  orderItems := h.rows .orderItems
  orderVouchers := h.rows .orderVouchers
  vouchers := h.rows .vouchers
  payments := h.rows .payments
  shipments := h.rows .shipments

/-- The items the check adds up are those a reader of Silver sees. -/
theorem activeItems_eq_map (items : List (SilverRow ℤ OrderItemColumns)) (orderId : ℤ) :
    activeItems items orderId = ((visibleRows items).filter fun item ↦
      item.payload.orderId = orderId).map fun item ↦ item.payload := by
  rw [activeItems, visibleRows, List.filter_map, List.filter_filter, List.map_map]
  refine congrArg _ (List.filter_congr fun row _ ↦ ?_)
  rw [Bool.decide_and, Bool.decide_eq_true, Bool.and_comm]
  rfl

/-- A visible order is looked up by its key among all rows. -/
theorem exists_lookup_of_mem_visibleRows {orders : List (SilverRow ℤ OrderColumns)}
    (hkeys : (orders.map fun row ↦ row.key).Nodup) (horder : order ∈ visibleRows orders) :
    ∃ row, MergeInto.lookup (fun row ↦ row.key) order.key orders = some row ∧
      row.isDeleted = false ∧ row.business = order := by
  obtain ⟨row, hrow, rfl⟩ := List.mem_map.1 horder
  obtain ⟨hmem, hvisible⟩ := List.mem_filter.1 hrow
  exact ⟨row, (MergeInto.lookup_eq_some_iff hkeys).2 ⟨hmem, rfl⟩, by simpa using hvisible, rfl⟩

/-- **What the check says of a visible order**: it has items, and they add up to its subtotal and
its tax, each up to a cent. -/
theorem ready_of_mem_visibleRows {orders : List (SilverRow ℤ OrderColumns)}
    {items : List (SilverRow ℤ OrderItemColumns)} (hkeys : (orders.map fun row ↦ row.key).Nodup)
    (hready : sourceFactReadyForGold orders items (some orderIds) = true)
    (horder : order ∈ visibleRows orders) (hid : order.key ∈ orderIds) :
    (actualGross (activeItems items order.key)).isSome = true ∧
      exceedsTolerance order.payload.subtotalAmount (actualGross (activeItems items order.key)) =
        false ∧
      exceedsTolerance order.payload.taxAmount
        (actualTax (activeItems items order.key)) = false := by
  obtain ⟨row, hlookup, hlive, rfl⟩ := exists_lookup_of_mem_visibleRows hkeys horder
  have hcomplete := (sourceFactReadyForGold_some_iff hkeys orderIds).1 hready _ hid
  rw [hlookup, orderIncomplete, if_neg (by simp [hlive]), Bool.or_eq_false_iff,
    Bool.or_eq_false_iff, Option.isNone_eq_false_iff] at hcomplete
  exact ⟨hcomplete.1.1, hcomplete.1.2, hcomplete.2⟩

/-- The amounts the check adds up are the sums over the visible items. -/
theorem actual_eq_some {items : List (SilverRow ℤ OrderItemColumns)} {orderId : ℤ}
    {lines : List OrderItem}
    (hlines : ((visibleRows items).filter fun item ↦ item.payload.orderId = orderId) = lines)
    (hne : lines ≠ []) (hamounts : ∀ item ∈ lines, item.payload.HasAmounts) :
    actualGross (activeItems items orderId) =
        some (lines.map fun item ↦ item.payload.gross).sum ∧
      actualTax (activeItems items orderId) =
        some (lines.map fun item ↦ item.payload.tax).sum := by
  rw [activeItems_eq_map, hlines, actualGross, actualTax, List.map_map, List.map_map]
  refine ⟨sumOf_map_eq hne fun item hitem ↦ ?_, sumOf_map_eq hne fun item hitem ↦ ?_⟩
  · show times item.payload.quantity item.payload.unitPrice = some item.payload.gross
    obtain ⟨q, hq⟩ := Option.isSome_iff_exists.1 (hamounts item hitem).quantity
    obtain ⟨p, hp⟩ := Option.isSome_iff_exists.1 (hamounts item hitem).unitPrice
    rw [OrderItemColumns.gross, hq, hp]
    rfl
  · exact taxAmount_eq_some (hamounts item hitem)

/-- The sums over the rebuilt facts of an order of the scope. -/
theorem factSums_rebuiltFacts (fns : SparkFunctions) {tables : FactSources}
    {dimensions : FactDimensions} (htables : tables.UniqueKeys) (hdims : dimensions.Disjoint)
    (horder : order ∈ tables.orders) (hid : order.key ∈ orderIds)
    (hconvention : HeaderConvention tables order) {lines : List OrderItem}
    (hlines : (tables.orderItems.filter fun item ↦ item.payload.orderId = order.key) = lines)
    (hne : lines ≠ []) :
    FactSums order.payload lines ((rebuiltFacts fns tables dimensions orderIds).filter
      fun f ↦ f.sourceOrderId = order.key) := by
  rw [rebuiltFacts, filter_buildFactSales_eq (uniqueKeys_factScope htables orderIds) htables
    (disjoint_factDimensionScope hdims _) hdims (agreeOnOrder_factScope hid)
    (agreeOnMembers_factDimensionScope _ _ _)]
  exact factSums_buildFactSales fns htables hdims horder hlines hne
    (hlines ▸ hconvention.items_hasAmounts) hconvention.shipping
    (Option.isSome_iff_exists.2 ⟨_, hconvention.discount⟩)

/-- **A ready order fails no comparison but the last**, which compares subtotal and tax with the
items together; there it is off by two cents at most. -/
theorem hasMonetaryMismatch_eq (fns : SparkFunctions) {tables : FactSources}
    {dimensions : FactDimensions} {orders : List (SilverRow ℤ OrderColumns)}
    {items : List (SilverRow ℤ OrderItemColumns)} (horders : tables.orders = visibleRows orders)
    (hitems : tables.orderItems = visibleRows items)
    (hkeys : (orders.map fun row ↦ row.key).Nodup) (htables : tables.UniqueKeys)
    (hdims : dimensions.Disjoint)
    (hready : sourceFactReadyForGold orders items (some orderIds) = true)
    (horder : order ∈ tables.orders) (hid : order.key ∈ orderIds)
    (hconvention : HeaderConvention tables order) :
    FailsNoOther (rebuiltFacts fns tables dimensions orderIds) order ∧
      hasMonetaryMismatch (rebuiltFacts fns tables dimensions orderIds) order =
        exceedsTolerance (plus order.payload.subtotalAmount order.payload.taxAmount)
          (plus (actualGross (activeItems items order.key))
            (actualTax (activeItems items order.key))) ∧
      ∀ total net, order.payload.totalAmount = some total →
        actualNet (rebuiltFacts fns tables dimensions orderIds) order.key = some net →
        (total - net).natAbs ≤ 2 := by
  -- readiness compares the items with the header, before any fact is built
  obtain ⟨hsome, hgross, htax⟩ := ready_of_mem_visibleRows hkeys hready (horders ▸ horder) hid
  obtain ⟨lines, hlines⟩ : ∃ lines : List OrderItem,
      (tables.orderItems.filter fun item ↦ item.payload.orderId = order.key) = lines := ⟨_, rfl⟩
  have hne : lines ≠ [] := by
    rintro rfl
    rw [activeItems_eq_map, ← hitems, hlines] at hsome
    cases hsome
  have hactual : ((visibleRows items).filter fun item ↦ item.payload.orderId = order.key) = lines :=
    hitems ▸ hlines
  obtain ⟨hactualGross, hactualTax⟩ :=
    actual_eq_some hactual hne (hlines ▸ hconvention.items_hasAmounts)
  -- the facts that Gold builds add up to the header and the items
  have hsums := factSums_rebuiltFacts fns htables hdims horder hid hconvention hlines hne
  obtain ⟨shipping, hshipping⟩ := Option.isSome_iff_exists.1 hconvention.shipping
  rw [hactualGross] at hgross
  rw [hactualTax] at htax
  have hnet := hsums.net
  have htotal := hconvention.total
  rw [hshipping, hconvention.discount] at hnet htotal
  rw [hactualGross, hactualTax]
  -- discount and shipping agree exactly, gross and tax as readiness saw them
  have hother : FailsNoOther (rebuiltFacts fns tables dimensions orderIds) order :=
    { net := by
        rw [actualNet, hnet]
        rfl
      gross := by
        rw [differByMoreThanTolerance_eq, actualSum, hsums.gross]
        exact hgross
      discount := by
        rw [differByMoreThanTolerance_eq, actualSum, hsums.totalDiscount]
        exact exceedsTolerance_self _
      tax := by
        rw [differByMoreThanTolerance_eq, actualSum, hsums.tax]
        exact htax
      shipping := by
        rw [differByMoreThanTolerance_eq, actualSum, hsums.shipping]
        exact exceedsTolerance_self _ }
  refine ⟨hother, ?_, fun total net hsomeTotal hsomeNet ↦ ?_⟩
  · rw [hother.hasMonetaryMismatch_eq, differByMoreThanTolerance_eq, actualNet, hnet, htotal,
      exceedsTolerance_minus_plus]
  · have hbound := natAbs_le_two_of_exceedsTolerance hgross htax
      (eq_some_of_minus_plus (htotal.symm.trans hsomeTotal))
      (eq_some_of_minus_plus (hnet.symm.trans hsomeNet))
    omega

/-- **A ready order can only fail the gate on subtotal and tax together.** If a set of orders is
ready, an order of it fails none of the other comparisons, the monetary check rejects it exactly
when its subtotal plus its tax is more than a cent away from its items, and its net amount is off by
two cents at most. -/
theorem hasMonetaryMismatch_of_ready (fns : SparkFunctions) (lake : SilverLake)
    (dimensions : FactDimensions) (orderIds : List ℤ) (hkeys : lake.UniqueKeys)
    (hdims : dimensions.Disjoint)
    (hconvention : ∀ order ∈ (factScope lake.factSources orderIds).orders,
      HeaderConvention lake.factSources order)
    (hready : sourceFactReadyForGold (lake.currentRows .orders) (lake.currentRows .orderItems)
      (some orderIds) = true) :
    ∀ order ∈ (factScope lake.factSources orderIds).orders,
      FailsNoOther (rebuiltFacts fns lake.factSources dimensions orderIds) order ∧
        hasMonetaryMismatch (rebuiltFacts fns lake.factSources dimensions orderIds) order =
          exceedsTolerance (plus order.payload.subtotalAmount order.payload.taxAmount)
            (plus (actualGross (activeItems (lake.currentRows .orderItems) order.key))
              (actualTax (activeItems (lake.currentRows .orderItems) order.key))) ∧
        ∀ total net, order.payload.totalAmount = some total →
          actualNet (rebuiltFacts fns lake.factSources dimensions orderIds) order.key = some net →
          (total - net).natAbs ≤ 2 := by
  intro order horder
  obtain ⟨hmem, id, hid, hkey⟩ := mem_filterIds.1 horder
  obtain rfl : order.key = id := Option.some.inj hkey
  exact hasMonetaryMismatch_eq fns rfl rfl (hkeys .orders) hkeys.factSources hdims hready hmem hid
    (hconvention order horder)

/-- Silver with an order of subtotal 100 and tax 10, and one item of it. -/
def oneItemLake (gross tax : ℤ) : SilverLake where
  tables
    | .orders => [{ rows := [storedRow (smallOrder 1 100 0 10 0)], feed := [] }]
    | .orderItems => [{ rows := [storedRow (smallItem 1 11 21 1 gross tax 0)], feed := [] }]
    | .appUsers | .userAddresses | .shops | .categories | .products | .productVariants | .vouchers
    | .orderVouchers | .payments | .shipments => []
  histories _ := []

/-- One order and one item. -/
theorem uniqueKeys_oneItemLake (gross tax : ℤ) : (oneItemLake gross tax).UniqueKeys := by
  intro t
  cases t <;> first | exact List.nodup_nil | exact List.nodup_singleton _

/-- Its header adds up, whatever its item has. -/
theorem headerConvention_oneItemLake (gross tax : ℤ) :
    ∀ order ∈ (factScope (oneItemLake gross tax).factSources [1]).orders,
      HeaderConvention (oneItemLake gross tax).factSources order := by
  intro order horder
  obtain rfl : order = smallOrder 1 100 0 10 0 :=
    List.mem_singleton.1 (mem_filterIds.1 horder).1
  refine ⟨fun item hitem ↦ ?_, rfl, rfl, rfl⟩
  obtain rfl : item = smallItem 1 11 21 1 gross tax 0 :=
    List.mem_singleton.1 (List.mem_of_mem_filter hitem)
  exact ⟨rfl, rfl, rfl, rfl⟩

/-- A cent too much gross and a cent too little tax: the net amount is right. -/
theorem hasMonetaryMismatch_of_ready_oneItem :
    hasMonetaryMismatch (rebuiltFacts .plain (oneItemLake 101 9).factSources smallDimensions [1])
      (smallOrder 1 100 0 10 0) = false :=
  (hasMonetaryMismatch_of_ready .plain (oneItemLake 101 9) smallDimensions [1]
    (uniqueKeys_oneItemLake 101 9) disjoint_smallDimensions (headerConvention_oneItemLake 101 9)
    (by decide) (smallOrder 1 100 0 10 0) (by decide)).2.1

/-- **A ready order that the gate rejects**: a cent too much gross and a cent too much tax. -/
theorem not_reconciled_of_ready :
    ¬∀ (fns : SparkFunctions) (lake : SilverLake) (dimensions : FactDimensions)
      (orderIds : List ℤ), lake.UniqueKeys → dimensions.Disjoint →
      (∀ order ∈ (factScope lake.factSources orderIds).orders,
        HeaderConvention lake.factSources order) →
      sourceFactReadyForGold (lake.currentRows .orders) (lake.currentRows .orderItems)
        (some orderIds) = true →
      ∀ order ∈ (factScope lake.factSources orderIds).orders,
        hasMonetaryMismatch (rebuiltFacts fns lake.factSources dimensions orderIds) order =
          false := by
  intro h
  have hpass := h .plain (oneItemLake 101 11) smallDimensions [1] (uniqueKeys_oneItemLake 101 11)
    disjoint_smallDimensions (headerConvention_oneItemLake 101 11) (by decide)
    (smallOrder 1 100 0 10 0) (by decide)
  exact absurd hpass (by decide)

end Ready

/-! ### The full scope -/

section FullScope

variable {orders : List (SilverRow ℤ OrderColumns)} {items : List (SilverRow ℤ OrderItemColumns)}

/-- The order ids in Silver: those of the orders, and those of the items. -/
def silverOrderIds (orders : List (SilverRow ℤ OrderColumns))
    (items : List (SilverRow ℤ OrderItemColumns)) : List ℤ :=
  orders.map (fun row ↦ row.key) ++ items.map fun row ↦ row.payload.orderId

/-- The order of every item has a row, be it a tombstone. -/
def ItemsHaveOrders (orders : List (SilverRow ℤ OrderColumns))
    (items : List (SilverRow ℤ OrderItemColumns)) : Prop :=
  ∀ item ∈ items, item.payload.orderId ∈ orders.map fun row ↦ row.key

/-- No item of a deleted order is left, except without a quantity or without a price. -/
def DeletedOrdersAreEmpty (orders : List (SilverRow ℤ OrderColumns))
    (items : List (SilverRow ℤ OrderItemColumns)) : Prop :=
  ∀ row ∈ orders, row.isDeleted = true →
    ∀ item ∈ items, item.isDeleted = false → item.payload.orderId = row.key →
      item.payload.quantity = none ∨ item.payload.unitPrice = none

/-- The check over all orders, order by order. -/
theorem sourceFactReadyForGold_none_iff : sourceFactReadyForGold orders items none = true ↔
    ∀ row ∈ orders, row.isDeleted = false →
      orderIncomplete (some row) (activeItems items row.key) = false := by
  rw [sourceFactReadyForGold, List.all_eq_true]
  simp only [List.mem_filter, Bool.not_eq_true', and_imp]

/-- The items that are added up are those of the order that are not deleted. -/
theorem mem_activeItems {orderId : ℤ} {c : OrderItemColumns} : c ∈ activeItems items orderId ↔
    ∃ item ∈ items, item.isDeleted = false ∧ item.payload.orderId = orderId ∧ item.payload = c := by
  simp [activeItems, and_assoc]

/-- There is no gross if no item has both a quantity and a price. -/
theorem actualGross_eq_none_iff {lines : List OrderItemColumns} :
    actualGross lines = none ↔ ∀ c ∈ lines, c.quantity = none ∨ c.unitPrice = none := by
  rw [actualGross, sumOf_eq_none_iff]
  simp [times]

/-- A deleted order is complete when none of its items is left. -/
theorem orderIncomplete_deleted_iff {row : SilverRow ℤ OrderColumns}
    (hdeleted : row.isDeleted = true) :
    orderIncomplete (some row) (activeItems items row.key) = false ↔
      ∀ item ∈ items, item.isDeleted = false → item.payload.orderId = row.key →
        item.payload.quantity = none ∨ item.payload.unitPrice = none := by
  rw [orderIncomplete, if_pos hdeleted, ← Bool.not_eq_true, Option.not_isSome_iff_eq_none,
    actualGross_eq_none_iff]
  constructor
  · intro h item hitem hlive horder
    exact h _ (mem_activeItems.2 ⟨item, hitem, hlive, horder, rfl⟩)
  · intro h c hc
    obtain ⟨item, hitem, hlive, horder, rfl⟩ := mem_activeItems.1 hc
    exact h item hitem hlive horder

/-- **When the full scope covers every scope.** If the check over all orders passes, the check of
every set of order ids in Silver passes exactly when every item has an order and no deleted order
has items left: the check over all orders starts from the visible ones. -/
theorem fullScopeReady_iff (orders : List (SilverRow ℤ OrderColumns))
    (items : List (SilverRow ℤ OrderItemColumns))
    (hkeys : (orders.map fun row ↦ row.key).Nodup)
    (hfull : sourceFactReadyForGold orders items none = true) :
    (∀ ids ⊆ silverOrderIds orders items, sourceFactReadyForGold orders items (some ids) = true) ↔
      ItemsHaveOrders orders items ∧ DeletedOrdersAreEmpty orders items := by
  have hvisible := sourceFactReadyForGold_none_iff.1 hfull
  constructor
  · intro h
    have hall := (sourceFactReadyForGold_some_iff hkeys _).1 (h _ (List.Subset.refl _))
    refine ⟨fun item hitem ↦ ?_, fun row hrow hdeleted ↦ ?_⟩
    · by_contra hno
      have hone := hall item.payload.orderId
        (List.mem_append_right _ (List.mem_map_of_mem hitem))
      have hmissing : MergeInto.lookup (fun row ↦ row.key) item.payload.orderId orders = none :=
        MergeInto.lookup_eq_none.2 fun row hrow hkey ↦ hno (List.mem_map.2 ⟨row, hrow, hkey⟩)
      rw [hmissing] at hone
      cases hone
    · have hone := hall row.key (List.mem_append_left _ (List.mem_map_of_mem hrow))
      rw [(MergeInto.lookup_eq_some_iff hkeys).2 ⟨hrow, rfl⟩] at hone
      exact (orderIncomplete_deleted_iff hdeleted).1 hone
  · rintro ⟨hitems, hempty⟩ ids hids
    refine (sourceFactReadyForGold_some_iff hkeys ids).2 fun orderId hid ↦ ?_
    have hkey : orderId ∈ orders.map fun row ↦ row.key := by
      rcases List.mem_append.1 (hids hid) with horder | hofItem
      · exact horder
      · obtain ⟨item, hmem, rfl⟩ := List.mem_map.1 hofItem
        exact hitems item hmem
    obtain ⟨row, hrow, rfl⟩ := List.mem_map.1 hkey
    rw [(MergeInto.lookup_eq_some_iff hkeys).2 ⟨hrow, rfl⟩]
    rcases Bool.eq_false_or_eq_true row.isDeleted with hdeleted | hlive
    · exact (orderIncomplete_deleted_iff hdeleted).2 (hempty row hrow hdeleted)
    · exact hvisible row hrow hlive

/-- A deleted order. -/
def deletedOrder (id : ℤ) : SilverRow ℤ OrderColumns :=
  { storedRow (smallOrder id 100 0 10 0) with isDeleted := true }

/-- An order with its item, and a deleted order whose item is deleted too. -/
theorem fullScopeReady_iff_deleted :
    (deletedOrder 2).isDeleted = true ∧ ∀ ids ⊆ ([1, 2, 1, 2] : List ℤ),
      sourceFactReadyForGold [storedRow (smallOrder 1 100 0 10 0), deletedOrder 2]
        [storedRow (smallItem 1 11 21 1 100 10 0),
          { storedRow (smallItem 2 21 21 1 100 10 0) with isDeleted := true }] (some ids) = true :=
  ⟨rfl, (fullScopeReady_iff [storedRow (smallOrder 1 100 0 10 0), deletedOrder 2]
    [storedRow (smallItem 1 11 21 1 100 10 0),
      { storedRow (smallItem 2 21 21 1 100 10 0) with isDeleted := true }]
    (by decide) (by decide)).2 ⟨by unfold ItemsHaveOrders; decide,
      by unfold DeletedOrdersAreEmpty; decide⟩⟩

/-- **A deleted order whose item is still there**: the check over all orders does not see it. -/
theorem not_fullScopeReady_deleted :
    ¬∀ (orders : List (SilverRow ℤ OrderColumns)) (items : List (SilverRow ℤ OrderItemColumns)),
      (orders.map fun row ↦ row.key).Nodup →
      sourceFactReadyForGold orders items none = true →
      ∀ ids ⊆ silverOrderIds orders items,
        sourceFactReadyForGold orders items (some ids) = true := by
  intro h
  have hready := h [deletedOrder 1] [storedRow (smallItem 1 11 21 1 100 10 0)] (by decide)
    (by decide) [1] (by decide)
  exact absurd hready (by decide)

end FullScope

end LakehousePipeline
