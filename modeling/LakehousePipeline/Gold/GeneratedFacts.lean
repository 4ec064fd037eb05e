import LakehousePipeline.Generator.Scenarios
import LakehousePipeline.Gold.Scd2Gate
import LakehousePipeline.Silver.Cleaning
import LakehousePipeline.Source.SilverMirror
import LakehousePipeline.Streaming.ReadyScopes

/-!
# Generated orders at the gates of Gold

What the generator does to the source, through Silver, to the gates before Gold. Cleaning leaves
keys and amounts, so the orders Silver shows are under the money convention as those of the source
are. Then `_assert_reconciliation` accepts a full build, and `_source_fact_ready_for_gold` holds no
order back (`goldAccepts_of_run`). Only the gate on amounts can reject a build, and it does so
exactly if the allocated amounts of some order do not fit its lines.

## In three steps

1. *The gates, for orders that add up.* `FactSources.OrdersAddUp` is what the gates need of Silver:
   every order has items, and its header is the sum of them. Facts of such an order sum up to its
   header exactly, not only up to the tolerance, so neither gate uses its tolerance here.
2. *From the source to Silver.* `ShowsSource` says that Silver shows the rows of the source,
   cleaned. Cleaning trims texts and folds their case; `SameHeader` and `SameItem` list what it
   keeps, and everything the gates compute is a function of that (`MoneyConvention.kept`,
   `amountsFit_kept`).
3. *From runs of the generator to the source.* A sound database has complete orders, and every run
   keeps it sound; so the first two steps apply to whatever it has been led to.

That Batch Silver does show the source, once nothing is left to extract and no transaction overtakes
another, is `showsSource_of_mirrorsSource`. The generator commits one transaction after the other,
so its own changes are never overtaken.

The dimensions may be any in which the versions of a member do not overlap. Those of a full build
are such (`disjoint_fullDimensions`).
-/

namespace LakehousePipeline

/-! ### The gates for orders under the money convention -/

section Gates

/-- The items of an order. -/
def FactSources.itemsOf (tables : FactSources) (order : Order) : List OrderItem :=
  tables.orderItems.filter fun item ↦ item.payload.orderId = order.key

/-- **Every order has items, and is under the money convention.** -/
def FactSources.OrdersAddUp (tables : FactSources) : Prop :=
  ∀ order ∈ tables.orders, tables.itemsOf order ≠ [] ∧
    MoneyConvention order.payload (tables.itemsOf order)

/-- Nothing differs from itself. -/
@[simp] theorem differByMoreThanTolerance_self (a : Option ℤ) :
    differByMoreThanTolerance a a = false := by
  rcases a with - | a
  · rfl
  · simp [differByMoreThanTolerance]

/-- Facts that add up to a header with a total do not differ from it. -/
theorem hasMonetaryMismatch_of_reconciles {facts : List FactRow} {order : Order}
    (htotal : order.payload.totalAmount.isSome = true)
    (h : Reconciles order.payload (facts.filter fun f ↦ f.sourceOrderId = order.key)) :
    hasMonetaryMismatch facts order = false := by
  rw [hasMonetaryMismatch]
  simp only [h.gross, h.totalDiscount, h.tax, h.shipping, h.net, differByMoreThanTolerance_self,
    Bool.or_false, Option.isNone_eq_false_iff]
  exact htotal

/-- A header under the money convention has a total. -/
theorem isSome_totalAmount {header : OrderColumns} {items : List OrderItem}
    (h : MoneyConvention header items) : header.totalAmount.isSome = true := by
  obtain ⟨shipping, hshipping⟩ := Option.isSome_iff_exists.1 h.shipping
  obtain ⟨discount, hdiscount⟩ := Option.isSome_iff_exists.1 h.discount
  rw [h.total, h.subtotal, h.tax, hshipping, hdiscount]
  rfl

variable {tables : FactSources} {dimensions : FactDimensions}

/-- Every item has its fact. -/
theorem sourceKey_mem_buildFactSales (fns : SparkFunctions) (htables : tables.UniqueKeys)
    (hdims : dimensions.Disjoint) {item : OrderItem} (hitem : item ∈ tables.orderItems) :
    (item.payload.orderId, item.key) ∈
      (buildFactSales fns tables dimensions).map FactRow.sourceKey := by
  obtain ⟨fact, hfact, hid⟩ := List.mem_map.1
    ((map_sourceOrderItemId_perm fns htables hdims).mem_iff.2 (List.mem_map_of_mem hitem))
  refine List.mem_map.2 ⟨fact, hfact, ?_⟩
  obtain ⟨item', hitem', before, after, rfl⟩ := mem_buildFactSales fns htables hdims hfact
  rw [factRow_sourceOrderItemId, joinItem_item] at hid
  obtain rfl := List.inj_on_of_nodup_map htables.orderItems hitem' hitem hid
  rfl

/-- **A full build reconciles** if the orders add up. -/
theorem assertReconciliation_of_ordersAddUp (fns : SparkFunctions) (htables : tables.UniqueKeys)
    (hdims : dimensions.Disjoint) (h : tables.OrdersAddUp) :
    assertReconciliation (buildFactSales fns tables dimensions) tables.orders tables.orderItems =
      .ok () := by
  have hlength : tables.orderItems.length = (buildFactSales fns tables dimensions).length := by
    simpa using (map_sourceOrderItemId_perm fns htables hdims).length_eq.symm
  have hmissing : (tables.orderItems.any fun item ↦ (item.payload.orderId, item.key) ∉
      (buildFactSales fns tables dimensions).map FactRow.sourceKey) = false :=
    List.any_eq_false.2 fun item hitem ↦ by
      simpa using sourceKey_mem_buildFactSales fns htables hdims hitem
  have hfind : tables.orders.find? (hasMonetaryMismatch (buildFactSales fns tables dimensions)) =
      none := by
    refine List.find?_eq_none.2 fun order horder ↦ ?_
    obtain ⟨hne, hmoney⟩ := h order horder
    rw [hasMonetaryMismatch_of_reconciles (isSome_totalAmount hmoney)
      ((factSums_buildFactSales fns htables hdims horder rfl hne hmoney.lines_hasAmounts
        hmoney.shipping hmoney.discount).reconciles hmoney)]
    exact Bool.false_ne_true
  rw [assertReconciliation, if_neg (not_not.2 hlength), hmissing, if_neg Bool.false_ne_true, hfind]

/-- **The gate on amounts** lets the facts of an order through exactly if they fit its lines. -/
theorem hasInvalidAmount_iff_amountsFit (fns : SparkFunctions) (htables : tables.UniqueKeys)
    (hdims : dimensions.Disjoint) {order : Order} (horder : order ∈ tables.orders)
    (hmoney : MoneyConvention order.payload (tables.itemsOf order))
    (hheader : order.payload.Checks)
    (hchecks : ∀ item ∈ tables.itemsOf order, item.payload.Checks) :
    (∀ fact ∈ buildFactSales fns tables dimensions, fact.sourceOrderId = order.key →
      fact.hasInvalidAmount = false) ↔ AmountsFit order.payload (tables.itemsOf order) := by
  obtain ⟨lines, hfacts, hlines, hsort⟩ :=
    exists_lines fns htables hdims horder rfl hmoney.lines_hasAmounts
  have hwindow : WindowOf order.payload (tables.itemsOf order) lines :=
    ⟨hmoney, hheader, hchecks, hlines, hsort ▸ List.perm_insertionSort _ _⟩
  rw [← hwindow.forall_amountsNonneg_iff fns hsort, ← hfacts]
  simp only [List.mem_filter, decide_eq_true_eq, and_imp]
  refine forall₂_congr fun fact hfact ↦ forall_congr' fun hof ↦ ?_
  have hmem : fact ∈ Window.overRows (factRow fns) lines :=
    hfacts ▸ List.mem_filter.2 ⟨hfact, decide_eq_true hof⟩
  obtain ⟨before, j, after, hsplit, rfl⟩ := Window.mem_overRows.1 hmem
  exact hwindow.hasInvalidAmount_eq_false_iff fns hsplit

end Gates

section Ready

variable {orders : List (SilverRow ℤ OrderColumns)} {items : List (SilverRow ℤ OrderItemColumns)}

/-- The items of an order that are shown. -/
def visibleItems (items : List (SilverRow ℤ OrderItemColumns)) (orderId : ℤ) : List OrderItem :=
  (visibleRows items).filter fun item ↦ item.payload.orderId = orderId

/-- **The orders that are shown add up, and no item is shown without its order.** -/
structure ShownOrdersAddUp (orders : List (SilverRow ℤ OrderColumns))
    (items : List (SilverRow ℤ OrderItemColumns)) : Prop where
  keys : (orders.map fun row ↦ row.key).Nodup
  order : ∀ item ∈ visibleRows items, ∃ order ∈ visibleRows orders,
    item.payload.orderId = order.key
  items : ∀ order ∈ visibleRows orders, visibleItems items order.key ≠ [] ∧
    MoneyConvention order.payload (visibleItems items order.key)

namespace ShownOrdersAddUp

/-- An order that is shown is complete. -/
theorem orderIncomplete_of_live (h : ShownOrdersAddUp orders items)
    {row : SilverRow ℤ OrderColumns} (hrow : row ∈ orders) (hlive : row.isDeleted = false) :
    orderIncomplete (some row) (activeItems items row.key) = false := by
  have hshown : row.business ∈ visibleRows orders :=
    List.mem_map_of_mem (List.mem_filter.2 ⟨hrow, by simp [hlive]⟩)
  obtain ⟨hne, hmoney⟩ := h.items _ hshown
  obtain ⟨hgross, htax⟩ := actual_eq_some rfl hne hmoney.lines_hasAmounts
  have hsubtotal : actualGross (activeItems items row.key) = row.payload.subtotalAmount :=
    hgross.trans hmoney.subtotal.symm
  have hheaderTax : actualTax (activeItems items row.key) = row.payload.taxAmount :=
    htax.trans hmoney.tax.symm
  have hknown : row.payload.subtotalAmount.isNone = false :=
    Option.isNone_eq_false_iff.2 (Option.isSome_iff_exists.2 ⟨_, hmoney.subtotal⟩)
  rw [orderIncomplete, if_neg (by simp [hlive]), hsubtotal, hheaderTax, hknown,
    exceedsTolerance_self, exceedsTolerance_self]
  rfl

/-- A deleted order has no items that are shown. -/
theorem orderIncomplete_of_deleted (h : ShownOrdersAddUp orders items)
    {row : SilverRow ℤ OrderColumns} (hrow : row ∈ orders) (hdeleted : row.isDeleted = true) :
    orderIncomplete (some row) (activeItems items row.key) = false := by
  have hnone : activeItems items row.key = [] := by
    rw [activeItems_eq_map, List.map_eq_nil_iff, List.filter_eq_nil_iff]
    intro item hitem hof
    obtain ⟨order, horder, hkey⟩ := h.order item hitem
    obtain ⟨shown, hshown, rfl⟩ := List.mem_map.1 horder
    obtain ⟨hmem, hlive⟩ := List.mem_filter.1 hshown
    have hsame : shown.key = row.key := hkey.symm.trans (of_decide_eq_true hof)
    obtain rfl := List.inj_on_of_nodup_map h.keys hmem hrow hsame
    rw [hdeleted] at hlive
    cases hlive
  rw [orderIncomplete, if_pos hdeleted, hnone]
  rfl

/-- **No order is held back.** -/
theorem ready (h : ShownOrdersAddUp orders items) :
    sourceFactReadyForGold orders items none = true ∧
    ∀ orderIds, (∀ id ∈ orderIds, id ∈ orders.map fun row ↦ row.key) →
      sourceFactReadyForGold orders items (some orderIds) = true := by
  constructor
  · refine List.all_eq_true.2 fun row hrow ↦ ?_
    obtain ⟨hmem, hshown⟩ := List.mem_filter.1 hrow
    rw [h.orderIncomplete_of_live hmem (by simpa using hshown)]
    rfl
  · intro orderIds hids
    refine (sourceFactReadyForGold_some_iff h.keys orderIds).2 fun id hid ↦ ?_
    obtain ⟨row, hrow, rfl⟩ := List.mem_map.1 (hids id hid)
    rw [(MergeInto.lookup_eq_some_iff h.keys).2 ⟨hrow, rfl⟩]
    cases hdeleted : row.isDeleted with
    | false => exact h.orderIncomplete_of_live hrow hdeleted
    | true => exact h.orderIncomplete_of_deleted hrow hdeleted

end ShownOrdersAddUp

end Ready

/-! ### Silver shows the source -/

section Silver

open Generator

/-- A row as Silver shows it. -/
def cleanedRow (case : CaseFunctions) (t : SilverTable) (row : BusinessRow ℤ (SilverColumns t)) :
    BusinessRow ℤ (SilverColumns t) :=
  { row with payload := cleaning case t row.payload }

/-- **Silver shows the source**: each table holds a key once, and shows the rows of the source,
cleaned. -/
structure ShowsSource (case : CaseFunctions) (lake : SilverLake) (db : OltpDatabase) : Prop where
  keys : lake.UniqueKeys
  rows : ∀ t, (lake.rows t).Perm ((db.rows t).map (cleanedRow case t))

/-- The row of a key among those a reader sees. -/
theorem lookup_visibleRows {P : Type} (table : List (SilverRow ℤ P)) (k : ℤ) :
    MergeInto.lookup (fun row ↦ row.key) k (visibleRows table) =
      (visibleRow table k).map SilverRow.business := by
  rw [MergeInto.lookup, visibleRows, List.find?_map, List.find?_filter, visibleRow]
  refine congrArg (Option.map _) (congrArg (List.find? · table) (funext fun row ↦ ?_))
  cases row.isDeleted
  · exact Bool.decide_congr
      ⟨fun h ↦ ⟨of_decide_eq_true h.2, rfl⟩, fun h ↦ ⟨rfl, decide_eq_true h.1⟩⟩
  · simp

/-- **A Batch Silver table shows the rows of the source**, where it mirrors every key and no
transaction is overtaken. -/
theorem perm_visibleRows_of_mirrorsSource {P : Type} {clean : P → P}
    {events : List (ChangeEvent ℤ P)} {table : List (SilverRow ℤ P)} {rows : List (BusinessRow ℤ P)}
    (hkeys : (table.map fun row ↦ row.key).Nodup) (hrows : (rows.map fun row ↦ row.key).Nodup)
    (hmirrors : ∀ k, MirrorsSource clean events table k)
    (hsource : ∀ k, sourceRow events k = MergeInto.lookup (fun row ↦ row.key) k rows)
    (hbegan : ∀ k, LastBeganLast events k) (hcreated : ∀ k, CreatedOnce events k) :
    (visibleRows table).Perm (rows.map fun row ↦ { row with payload := clean row.payload }) := by
  refine @MergeInto.perm_of_lookup_eq _ _ _ (fun row ↦ row.key) _ _
    (nodup_key_visibleRows hkeys) ?_ fun k ↦ ?_
  · rw [List.map_map]
    exact hrows
  · rw [lookup_visibleRows, (hmirrors k).created (hbegan k) (hcreated k), hsource,
      MergeInto.lookup, MergeInto.lookup, List.find?_map]
    rfl

/-! #### Amounts that are kept -/

/-- A header keeps its amounts. -/
structure SameHeader (header header' : OrderColumns) : Prop where
  subtotal : header'.subtotalAmount = header.subtotalAmount
  shipping : header'.shippingAmount = header.shippingAmount
  tax : header'.taxAmount = header.taxAmount
  discount : header'.discountAmount = header.discountAmount
  total : header'.totalAmount = header.totalAmount

/-- An item keeps its key, its order and its amounts. -/
structure SameItem (item item' : OrderItem) : Prop where
  key : item'.key = item.key
  orderId : item'.payload.orderId = item.payload.orderId
  quantity : item'.payload.quantity = item.payload.quantity
  unitPrice : item'.payload.unitPrice = item.payload.unitPrice
  tax : item'.payload.taxAmount = item.payload.taxAmount
  discount : item'.payload.discountAmount = item.payload.discountAmount

/-- Cleaning keeps the amounts of a header. -/
theorem sameHeader_cleaning (case : CaseFunctions) (header : OrderColumns) :
    SameHeader header (cleaning case .orders header) :=
  (congrArg (SameHeader header) (cleaning_eq case .orders header)).mpr ⟨rfl, rfl, rfl, rfl, rfl⟩

/-- Cleaning keeps the amounts of an item. -/
theorem sameItem_cleanedRow (case : CaseFunctions) (item : OrderItem) :
    SameItem item (cleanedRow case .orderItems item) :=
  (congrArg (fun payload : OrderItemColumns ↦ SameItem item { item with payload := payload })
    (cleaning_eq case .orderItems item.payload)).mpr ⟨rfl, rfl, rfl, rfl, rfl, rfl⟩

/-- The `CHECK`s of a header are about the amounts that are kept. -/
theorem SameHeader.checks {header header' : OrderColumns} (h : SameHeader header header')
    (hchecks : header.Checks) : header'.Checks where
  subtotal := h.subtotal ▸ hchecks.subtotal
  shipping := h.shipping ▸ hchecks.shipping
  tax := h.tax ▸ hchecks.tax
  discount := h.discount ▸ hchecks.discount
  discount_le := h.discount ▸ h.subtotal ▸ h.shipping ▸ h.tax ▸ hchecks.discount_le

section Kept

variable {header header' : OrderColumns} {items items' : List OrderItem}
  {clean : OrderItem → OrderItem}

namespace SameItem

variable {item item' : OrderItem} (h : SameItem item item')
include h

/-- The gross of an item is kept. -/
theorem gross : item'.payload.gross = item.payload.gross := by
  rw [OrderItemColumns.gross, h.quantity, h.unitPrice, OrderItemColumns.gross]

/-- So is its tax, with null read as zero. -/
theorem taxOf : item'.payload.tax = item.payload.tax := by
  rw [OrderItemColumns.tax, h.tax, OrderItemColumns.tax]

/-- And its discount. -/
theorem discountOf : item'.payload.discount = item.payload.discount := by
  rw [OrderItemColumns.discount, h.discount, OrderItemColumns.discount]

/-- An item with amounts still has them. -/
theorem hasAmounts (hamounts : item.payload.HasAmounts) : item'.payload.HasAmounts :=
  ⟨h.quantity ▸ hamounts.quantity, h.unitPrice ▸ hamounts.unitPrice, h.tax ▸ hamounts.taxAmount,
    h.discount ▸ hamounts.discountAmount⟩

/-- The `CHECK`s of an item are about the amounts that are kept. -/
theorem checks (hchecks : item.payload.Checks) : item'.payload.Checks where
  quantity := h.quantity ▸ hchecks.quantity
  unitPrice := h.unitPrice ▸ hchecks.unitPrice
  tax := h.taxOf ▸ hchecks.tax
  discount := h.discountOf ▸ hchecks.discount
  discount_le := h.discountOf ▸ h.taxOf ▸ h.gross ▸ hchecks.discount_le

end SameItem

/-- A sum over the items that are kept. -/
theorem sum_of_perm_map {amount : OrderItem → ℤ} (hperm : items'.Perm (items.map clean))
    (hamount : ∀ item, amount (clean item) = amount item) :
    (items'.map amount).sum = (items.map amount).sum := by
  rw [(hperm.map amount).sum_eq, List.map_map]
  exact congrArg List.sum (List.map_congr_left fun item _ ↦ hamount item)

variable (hheader : SameHeader header header') (hclean : ∀ item, SameItem item (clean item))
  (hperm : items'.Perm (items.map clean))
include hheader hclean hperm

/-- The money convention is kept. -/
theorem MoneyConvention.kept (h : MoneyConvention header items) :
    MoneyConvention header' items' where
  lines_hasAmounts item' hitem' := by
    obtain ⟨item, hitem, rfl⟩ := List.mem_map.1 (hperm.mem_iff.1 hitem')
    exact (hclean item).hasAmounts (h.lines_hasAmounts item hitem)
  subtotal := by
    rw [hheader.subtotal, h.subtotal, sum_of_perm_map hperm fun item ↦ (hclean item).gross]
  tax := by
    rw [hheader.tax, h.tax, sum_of_perm_map hperm fun item ↦ (hclean item).taxOf]
  shipping := hheader.shipping ▸ h.shipping
  discount := hheader.discount ▸ h.discount
  total := by
    rw [hheader.total, hheader.subtotal, hheader.tax, hheader.shipping, hheader.discount, h.total]

/-- What an item is allocated is kept. -/
theorem shares_kept (item : OrderItem) :
    shippingShare header' items' (clean item) = shippingShare header items item ∧
      headerSplit header' items' = headerSplit header items ∧
      (headerSplit header items).kept (clean item) = (headerSplit header items).kept item ∧
      discountShare header' items' (clean item) = discountShare header items item := by
  have hgross : (items'.map fun item ↦ item.payload.gross).sum =
      (items.map fun item ↦ item.payload.gross).sum :=
    sum_of_perm_map hperm fun item ↦ (hclean item).gross
  have hsplit : headerSplit header' items' = headerSplit header items := by
    rw [headerSplit, hheader.discount, sum_of_perm_map hperm fun item ↦ (hclean item).discountOf,
      headerSplit]
  refine ⟨?_, hsplit, ?_, ?_⟩
  · rw [shippingShare, share, hheader.shipping, hgross, (hclean item).gross, shippingShare, share]
  · rw [headerSplit, discountSplit]
    split
    · exact (hclean item).discountOf
    · rfl
  · rw [discountShare, hsplit, share, hgross, (hclean item).gross, discountShare, share]

/-- Whether the amounts fit is kept, line by line. -/
theorem linesFit_kept (last : OrderItem) (others : List OrderItem) :
    LinesFit header' items' (clean last) (others.map clean) ↔
      LinesFit header items last others := by
  have hshares := shares_kept hheader hclean hperm
  have hshipping : ((others.map clean).map (shippingShare header' items')).sum =
      (others.map (shippingShare header items)).sum := by
    rw [List.map_map]
    exact congrArg List.sum (List.map_congr_left fun item _ ↦ (hshares item).1)
  have hdiscount : ((others.map clean).map (discountShare header' items')).sum =
      (others.map (discountShare header items)).sum := by
    rw [List.map_map]
    exact congrArg List.sum (List.map_congr_left fun item _ ↦ (hshares item).2.2.2)
  obtain ⟨-, hsplit, hkept, -⟩ := hshares last
  constructor
  · intro h
    refine ⟨?_, ?_, ?_, fun item hitem ↦ ?_⟩
    · simpa only [hshipping, hheader.shipping] using h.shipping
    · simpa only [hdiscount, hsplit] using h.discount
    · simpa only [hshipping, hdiscount, hsplit, hkept, hheader.shipping, (hclean last).gross,
        (hclean last).taxOf] using h.net_last
    · have hnet := h.net_others _ (List.mem_map_of_mem hitem)
      rwa [hsplit, (hshares item).2.2.1, (hshares item).1, (hshares item).2.2.2,
        (hclean item).gross, (hclean item).taxOf] at hnet
  · intro h
    refine ⟨?_, ?_, ?_, List.forall_mem_map.2 fun item hitem ↦ ?_⟩
    · simpa only [hshipping, hheader.shipping] using h.shipping
    · simpa only [hdiscount, hsplit] using h.discount
    · simpa only [hshipping, hdiscount, hsplit, hkept, hheader.shipping, (hclean last).gross,
        (hclean last).taxOf] using h.net_last
    · rw [hsplit, (hshares item).2.2.1, (hshares item).1, (hshares item).2.2.2,
        (hclean item).gross, (hclean item).taxOf]
      exact h.net_others item hitem

/-- **Whether the amounts of an order fit its lines is kept.** -/
theorem amountsFit_kept (hkeys : (items.map fun item ↦ item.key).Nodup) :
    AmountsFit header' items' ↔ AmountsFit header items := by
  let r : OrderItem → OrderItem → Prop := fun a b ↦ b.key ≤ a.key
  have : Std.Total r := ⟨fun a b ↦ le_total _ _⟩
  have : IsTrans _ r := ⟨fun _ _ _ hab hbc ↦ hbc.trans hab⟩
  have hcleanKeys : ((items.map clean).map fun item ↦ item.key).Nodup := by
    rw [List.map_map]
    exact (List.map_congr_left fun item _ ↦ (hclean item).key) ▸ hkeys
  have hsort : items'.insertionSort r = (items.insertionSort r).map clean := by
    rw [Window.insertionSort_eq_of_perm r hperm, List.map_insertionSort r r clean items]
    · intro a _ b _
      show b.key ≤ a.key ↔ (clean b).key ≤ (clean a).key
      rw [(hclean a).key, (hclean b).key]
    · intro a ha b hb hab hba
      exact List.inj_on_of_nodup_map hcleanKeys (hperm.mem_iff.1 ha) (hperm.mem_iff.1 hb)
        (le_antisymm hba hab)
  have hsort : (items'.insertionSort fun a b ↦ b.key ≤ a.key) =
      (items.insertionSort fun a b ↦ b.key ≤ a.key).map clean := hsort
  rw [AmountsFit, hsort, AmountsFit]
  cases hsorted : items.insertionSort fun a b ↦ b.key ≤ a.key with
  | nil => exact Iff.rfl
  | cons last others => exact linesFit_kept hheader hclean hperm last others

end Kept

/-! #### The orders Silver shows -/

/-- The items of an order in a table that shows the source. -/
theorem perm_visibleItems_of {table : List (SilverRow ℤ OrderItemColumns)} {source : List OrderItem}
    {clean : OrderItem → OrderItem} (hclean : ∀ item, SameItem item (clean item))
    (hperm : (visibleRows table).Perm (source.map clean)) (orderId : ℤ) :
    (visibleItems table orderId).Perm ((KeyedTables.childrenOf
      (fun item : OrderItem ↦ item.payload.orderId) orderId source).map clean) := by
  have hitems : (source.map clean).filter (fun item ↦ item.payload.orderId = orderId) =
      (KeyedTables.childrenOf (fun item : OrderItem ↦ item.payload.orderId) orderId source).map
        clean := by
    rw [List.filter_map, KeyedTables.childrenOf]
    refine congrArg _ (List.filter_congr fun item _ ↦ ?_)
    show decide ((clean item).payload.orderId = orderId) = _
    rw [(hclean item).orderId]
  exact hitems ▸ hperm.filter _

namespace ShowsSource

variable {case : CaseFunctions} {lake : SilverLake} {db : OltpDatabase}
  (h : ShowsSource case lake db)
include h

/-- The rows Silver shows are those of the source, cleaned. -/
theorem mem_rows {t : SilverTable} {row : BusinessRow ℤ (SilverColumns t)}
    (hrow : row ∈ lake.rows t) : ∃ source ∈ db.rows t, cleanedRow case t source = row :=
  List.mem_map.1 ((h.rows t).mem_iff.1 hrow)

/-- The items of an order are those of the source, cleaned. -/
theorem perm_visibleItems (orderId : ℤ) :
    (visibleItems (lake.currentRows .orderItems) orderId).Perm
      ((db.itemsOf orderId).map (cleanedRow case .orderItems)) :=
  perm_visibleItems_of (sameItem_cleanedRow case) (h.rows .orderItems) orderId

/-- **The orders Silver shows add up**, if those of the source are complete. -/
theorem shownOrdersAddUp (hsound : db.Sound) :
    ShownOrdersAddUp (lake.currentRows .orders) (lake.currentRows .orderItems) where
  keys := h.keys .orders
  order item hitem := by
    obtain ⟨source, hsource, rfl⟩ := h.mem_rows hitem
    obtain ⟨order, horder, hkey⟩ := hsound.orders.items source hsource
    refine ⟨cleanedRow case .orders order, ?_, ?_⟩
    · exact (h.rows .orders).mem_iff.2 (List.mem_map_of_mem horder)
    · exact (sameItem_cleanedRow case source).orderId.trans hkey.symm
  items order horder := by
    obtain ⟨source, hsource, rfl⟩ := h.mem_rows horder
    have hcomplete := hsound.orders.complete source hsource
    have hperm := h.perm_visibleItems source.key
    constructor
    · intro hnil
      have hnil : visibleItems (lake.currentRows .orderItems) source.key = [] := hnil
      rw [hnil] at hperm
      exact hcomplete.items_ne (List.map_eq_nil_iff.1 (List.nil_perm.1 hperm))
    · exact hcomplete.money.kept (sameHeader_cleaning case _) (sameItem_cleanedRow case) hperm

/-- Whether the amounts of the orders fit is the same in Silver and in the source. -/
theorem amountsFit_iff (hsound : db.Sound) (order : Order) :
    AmountsFit (cleaning case .orders order.payload)
        (visibleItems (lake.currentRows .orderItems) order.key) ↔
      AmountsFit order.payload (db.itemsOf order.key) :=
  amountsFit_kept (sameHeader_cleaning case _) (sameItem_cleanedRow case)
    (h.perm_visibleItems order.key)
    ((hsound.fits.keys .orderItems).sublist (List.filter_sublist.map _))

/-- **What Gold makes of orders that are complete**: a full build reconciles, no order is held back,
and the gate on amounts lets all facts through exactly if the amounts of every order fit. -/
theorem goldAccepts (hsound : db.Sound) (fns : SparkFunctions) {dimensions : FactDimensions}
    (hdims : dimensions.Disjoint) :
    assertReconciliation (buildFactSales fns lake.factSources dimensions) lake.factSources.orders
        lake.factSources.orderItems = .ok () ∧
      sourceFactReadyForGold (lake.currentRows .orders) (lake.currentRows .orderItems) none = true ∧
      (∀ orderIds, (∀ id ∈ orderIds, id ∈ (lake.currentRows .orders).map fun row ↦ row.key) →
        sourceFactReadyForGold (lake.currentRows .orders) (lake.currentRows .orderItems)
          (some orderIds) = true) ∧
      ((∀ fact ∈ buildFactSales fns lake.factSources dimensions, fact.hasInvalidAmount = false) ↔
        ∀ order ∈ db.orders, AmountsFit order.payload (db.itemsOf order.key)) := by
  have hshown := h.shownOrdersAddUp hsound
  have htables := h.keys.factSources
  refine ⟨assertReconciliation_of_ordersAddUp fns htables hdims hshown.items, hshown.ready.1,
    hshown.ready.2, ?_⟩
  -- the gate looks at the facts order by order
  have horder : ∀ order ∈ db.orders,
      (∀ fact ∈ buildFactSales fns lake.factSources dimensions,
        fact.sourceOrderId = order.key → fact.hasInvalidAmount = false) ↔
      AmountsFit order.payload (db.itemsOf order.key) := by
    intro order horder
    have hcomplete := hsound.orders.complete order horder
    have hmem : cleanedRow case .orders order ∈ lake.factSources.orders :=
      (h.rows .orders).mem_iff.2 (List.mem_map_of_mem horder)
    have hheader := sameHeader_cleaning case order.payload
    refine (hasInvalidAmount_iff_amountsFit fns htables hdims hmem (hshown.items _ hmem).2
      (hheader.checks hcomplete.checks) fun item hitem ↦ ?_).trans (h.amountsFit_iff hsound order)
    obtain ⟨source, hsource, rfl⟩ :=
      List.mem_map.1 ((h.perm_visibleItems order.key).mem_iff.1 hitem)
    exact (sameItem_cleanedRow case source).checks (hcomplete.itemChecks source hsource)
  rw [← forall₂_congr horder]
  constructor
  · exact fun hall order _ fact hfact _ ↦ hall fact hfact
  · intro hall fact hfact
    obtain ⟨item, hitem, before, after, rfl⟩ := mem_buildFactSales fns htables hdims hfact
    obtain ⟨shown, hshownOrder, hkey⟩ := hshown.order item hitem
    obtain ⟨source, hsource, rfl⟩ := h.mem_rows hshownOrder
    exact hall source hsource _ hfact hkey

end ShowsSource

/-- **Batch Silver shows the source** where it mirrors the change events of every table, the last
change of a row began last, and the events played back give the rows. -/
theorem showsSource_of_mirrorsSource {case : CaseFunctions} {lake : SilverLake} {db : OltpDatabase}
    {events : (t : SilverTable) → List (ChangeEvent ℤ (SilverColumns t))} (hkeys : lake.UniqueKeys)
    (hrows : ∀ t, ((db.rows t).map fun row ↦ row.key).Nodup)
    (hmirrors : ∀ t k, MirrorsSource (cleaning case t) (events t) (lake.currentRows t) k)
    (hsource : ∀ t k, sourceRow (events t) k =
      MergeInto.lookup (fun row ↦ row.key) k (db.rows t))
    (hbegan : ∀ t k, LastBeganLast (events t) k) (hcreated : ∀ t k, CreatedOnce (events t) k) :
    ShowsSource case lake db where
  keys := hkeys
  rows t := perm_visibleRows_of_mirrorsSource (hkeys t) (hrows t) (hmirrors t) (hsource t)
    (hbegan t) (hcreated t)

/-- The versions of a member in the dimensions of a full build do not overlap. -/
theorem disjoint_fullDimensions (fns : SparkFunctions) (lake : SilverLake) :
    (GoldSnapshot.factDimensions (fullDimensions fns lake)).Disjoint where
  dimCustomer := disjointVersions_replay fns _ true unknownCustomer
  dimShop := disjointVersions_replay fns _ true unknownShop
  dimCategory := disjointVersions_replay fns _ true unknownCategory
  dimProduct := disjointVersions_replay fns _ true unknownProduct

/-- **The orders of the generator pass the gates of Gold.** After any run of it, once Silver shows
the source, over the dimensions of a full build or any others in which the versions of a member do
not overlap: `_assert_reconciliation` accepts a full build, `_source_fact_ready_for_gold` holds no
order back, and the gate on amounts lets the facts through exactly if the allocated amounts of
every order in the source fit its lines. -/
theorem goldAccepts_of_run {render : Rendering} {seeded : RuntimeState} {db db' : OltpDatabase}
    (hbaseline : Baseline db seeded) {transactions : List Transaction}
    (hdrawn : Runs.Along (step render seeded) (fun db t ↦ t.Drawn render seeded db) db transactions)
    (hrun : Runs.run (step render seeded) db transactions = some db') {case : CaseFunctions}
    {lake : SilverLake} (hshows : ShowsSource case lake db') (fns : SparkFunctions) :
    (GoldSnapshot.factDimensions (fullDimensions fns lake)).Disjoint ∧
    ∀ dimensions : FactDimensions, dimensions.Disjoint →
      assertReconciliation (buildFactSales fns lake.factSources dimensions) lake.factSources.orders
          lake.factSources.orderItems = .ok () ∧
        sourceFactReadyForGold (lake.currentRows .orders) (lake.currentRows .orderItems) none =
          true ∧
        (∀ orderIds, (∀ id ∈ orderIds, id ∈ (lake.currentRows .orders).map fun row ↦ row.key) →
          sourceFactReadyForGold (lake.currentRows .orders) (lake.currentRows .orderItems)
            (some orderIds) = true) ∧
        ((∀ fact ∈ buildFactSales fns lake.factSources dimensions, fact.hasInvalidAmount = false) ↔
          ∀ order ∈ db'.orders, AmountsFit order.payload (db'.itemsOf order.key)) :=
  ⟨disjoint_fullDimensions fns lake, fun _ hdims ↦ hshows.goldAccepts (sound_of_transactions
    (sound_of_baseline hbaseline) hbaseline.state hdrawn hrun).1 fns hdims⟩

/-- Silver tables with the rows of a source. -/
def shownLake (case : CaseFunctions) (db : OltpDatabase) : SilverLake where
  tables t := [smallCommit ((db.rows t).map fun row ↦ storedRow (cleanedRow case t row))]
  histories _ := []

/-- Silver tables with the cleaned rows of a source show it. -/
theorem showsSource_shownLake (case : CaseFunctions) {db : OltpDatabase} (hfits : db.FitsSchema) :
    ShowsSource case (shownLake case db) db where
  keys t := by
    show ((List.map _ (db.rows t)).map _).Nodup
    rw [List.map_map]
    exact hfits.keys t
  rows t := by
    refine List.Perm.of_eq ?_
    show visibleRows (List.map _ (db.rows t)) = _
    rw [visibleRows, List.filter_eq_self.2, List.map_map]
    · rfl
    · exact List.forall_mem_map.2 fun _ _ ↦ rfl

/-- A seeded order and one of a batch. -/
theorem goldAccepts_of_run_small : ∃ db, Runs.run (step smallRendering smallState) smallDatabase
    [smallSeed, smallBatch 1] = some db ∧
      let lake := shownLake .ascii db
      let dimensions := GoldSnapshot.factDimensions (fullDimensions .plain lake)
      assertReconciliation (buildFactSales .plain lake.factSources dimensions)
          lake.factSources.orders lake.factSources.orderItems = .ok () ∧
        sourceFactReadyForGold (lake.currentRows .orders) (lake.currentRows .orderItems) none =
          true ∧
        (∀ orderIds, (∀ id ∈ orderIds, id ∈ (lake.currentRows .orders).map fun row ↦ row.key) →
          sourceFactReadyForGold (lake.currentRows .orders) (lake.currentRows .orderItems)
            (some orderIds) = true) ∧
        ((∀ fact ∈ buildFactSales .plain lake.factSources dimensions,
          fact.hasInvalidAmount = false) ↔
            ∀ order ∈ db.orders, AmountsFit order.payload (db.itemsOf order.key)) := by
  have hdrawn : Runs.Along (step smallRendering smallState)
      (fun db t ↦ t.Drawn smallRendering smallState db) smallDatabase
      [smallSeed, smallBatch 1] := by
    decide +kernel
  have hrun : (Runs.run (step smallRendering smallState) smallDatabase
      [smallSeed, smallBatch 1]).isSome = true := by
    decide +kernel
  obtain ⟨db, hdb⟩ := Option.isSome_iff_exists.1 hrun
  have hsound := (sound_of_transactions (sound_of_baseline baseline_small) baseline_small.state
    hdrawn hdb).1
  obtain ⟨hdims, haccepts⟩ := goldAccepts_of_run baseline_small hdrawn hdb
    (showsSource_shownLake .ascii hsound.fits) .plain
  exact ⟨db, hdb, haccepts _ hdims⟩

end Silver

end LakehousePipeline
