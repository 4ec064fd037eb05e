import LakehousePipeline.Gold.FactSales

/-!
# The joins of `fact_sales` neither drop nor multiply items

Every join of the chain matches at most one row: the tables joined by a key have that key once
(primary keys, the first version of a member, the latest payment and shipment of an order, the
promotion of an order), and the version joins find at most one version in force, as the ranges of
one member are disjoint. So the chain is a map over the order items (`joinedItems_eq_map`), and
everything said about fact rows later is said about `joinItem`.

## Two hypotheses

`FactSources.UniqueKeys` is what the merges of Silver keep, and `FactDimensions.Disjoint` what the
replay of a dimension gives, whether or not the gate has accepted it. No hypothesis is made on the
references between the tables. A join that finds nothing leaves nulls, as the left joins of the
source do, and an item without its order has a row as well.

A version can match in two ways, in force at the time of the order or first of its member, and the
source joins both and coalesces. `versionInForce` and `firstVersion` are what the two joins find;
they are functions of the dimension, the member and the time, so two items of one order and one
variant have the same versions.
-/

namespace LakehousePipeline

/-- The primary keys of the Silver tables are unique. -/
structure FactSources.UniqueKeys (tables : FactSources) : Prop where
  orders : (tables.orders.map fun row ↦ row.key).Nodup
  orderItems : (tables.orderItems.map fun row ↦ row.key).Nodup
  orderVouchers : (tables.orderVouchers.map fun row ↦ row.key).Nodup
  vouchers : (tables.vouchers.map fun row ↦ row.key).Nodup
  payments : (tables.payments.map fun row ↦ row.key).Nodup
  shipments : (tables.shipments.map fun row ↦ row.key).Nodup

section Versions

variable {A κ V : Type}

/-- The ranges of two versions of one known member have no instant in common. -/
def DisjointVersions (dimension : List (Scd2Row A κ V)) : Prop :=
  (knownVersions dimension).Pairwise fun v w ↦
    v.sourceKey = w.sourceKey → ∀ t, ¬(v.Covers t ∧ w.Covers t)

/-- The first version of a known member: the earliest start, then the least key. -/
def IsFirstVersion (dimension : List (Scd2Row A κ V)) (k : ℤ) (v : Scd2Row A κ V) : Prop :=
  v ∈ dimension ∧ v.sourceKey = some k ∧ ∀ w ∈ dimension, w.sourceKey = some k →
    (toLex (v.effectiveFrom, v.surrogateKey) : ℤ ×ₗ ℤ) ≤ toLex (w.effectiveFrom, w.surrogateKey)

/-- The known versions are those of a member. -/
theorem mem_knownVersions {dimension : List (Scd2Row A κ V)} {v : Scd2Row A κ V} :
    v ∈ knownVersions dimension ↔ v ∈ dimension ∧ v.sourceKey.isSome = true := by
  rw [knownVersions, List.mem_filter]

/-- A version matches if it is of the member and covers the time. Null matches nothing. -/
theorem versionMatch_eq_true_iff {sourceKey : Option ℤ} {t : Option Timestamp}
    {v : Scd2Row A κ V} :
    versionMatch sourceKey t v = true ↔
      ∃ k s, sourceKey = some k ∧ t = some s ∧ v.sourceKey = some k ∧ v.Covers s := by
  rw [versionMatch, Bool.and_eq_true, equalColumns_eq_true_iff]
  cases t with
  | none => simp
  | some s => simp [← and_assoc]

/-- At most one version of a member is in force. -/
theorem length_filter_versionMatch_le_one {dimension : List (Scd2Row A κ V)}
    (h : DisjointVersions dimension) (sourceKey : Option ℤ) (t : Option Timestamp) :
    ((knownVersions dimension).filter (versionMatch sourceKey t)).length ≤ 1 := by
  have hpair := List.Pairwise.filter (versionMatch sourceKey t) h
  match hfilter : (knownVersions dimension).filter (versionMatch sourceKey t) with
  | [] => exact Nat.zero_le 1
  | [v] => exact le_rfl
  | v :: w :: rest =>
    have hmatch : ∀ u ∈ [v, w], versionMatch sourceKey t u = true := fun u hu ↦
      (List.mem_filter.1 (hfilter ▸ List.mem_append_left rest hu :
        u ∈ (knownVersions dimension).filter (versionMatch sourceKey t))).2
    obtain ⟨k, s, hk, hs, hvk, hv⟩ := versionMatch_eq_true_iff.1 (hmatch v (by simp))
    obtain ⟨k', s', hk', hs', hwk, hw⟩ := versionMatch_eq_true_iff.1 (hmatch w (by simp))
    cases hk.symm.trans hk'
    cases hs.symm.trans hs'
    rw [hfilter, List.pairwise_cons] at hpair
    exact absurd ⟨hv, hw⟩ (hpair.1 w List.mem_cons_self (hvk.trans hwk.symm) s)

/-- Ranges that follow one another are disjoint. -/
theorem disjointVersions_of_consecutive {dimension : List (Scd2Row A κ V)}
    (h : (knownVersions dimension).Pairwise fun v w ↦ v.sourceKey = w.sourceKey →
      v.effectiveTo ≤ w.effectiveFrom ∨ w.effectiveTo ≤ v.effectiveFrom) :
    DisjointVersions dimension := by
  refine h.imp fun {v w} hvw hkey t ht ↦ ?_
  obtain ⟨⟨hv1, hv2⟩, hw1, hw2⟩ := ht
  rcases hvw hkey with hle | hle
  · exact absurd (hle.trans hw1) (not_le.2 hv2)
  · exact absurd (hle.trans hv1) (not_le.2 hw2)

/-- There is one first version per member. -/
theorem length_filter_firstScd2Version_le_one (dimension : List (Scd2Row A κ V))
    (sourceKey : Option ℤ) :
    ((firstScd2Version dimension).filter fun v ↦
      equalColumns sourceKey v.sourceKey).length ≤ 1 := by
  have hnd : ((firstScd2Version dimension).map fun v ↦ v.sourceKey).Nodup :=
    Window.nodup_map_firstPerPartition _ _ _
  refine le_trans (List.Sublist.length_le ?_) (Relational.length_filter_eq_le_one hnd sourceKey)
  refine List.monotone_filter_right _ fun v hv ↦ ?_
  obtain ⟨k, hk, hv⟩ := equalColumns_eq_true_iff.1 hv
  rw [hk, hv, decide_eq_true rfl]

/-- The row the join with the first versions finds. -/
theorem find?_firstScd2Version (dimension : List (Scd2Row A κ V)) (k : ℤ) :
    ((firstScd2Version dimension).find? (fun v ↦ equalColumns (some k) v.sourceKey) = none ∧
        ∀ v ∈ dimension, v.sourceKey ≠ some k) ∨
      ∃ v, IsFirstVersion dimension k v ∧
        (firstScd2Version dimension).find? (fun v ↦ equalColumns (some k) v.sourceKey) =
          some v := by
  let r : Scd2Row A κ V → Scd2Row A κ V → Prop := fun a b ↦
    (toLex (a.effectiveFrom, a.surrogateKey) : ℤ ×ₗ ℤ) ≤ toLex (b.effectiveFrom, b.surrogateKey)
  have : Std.Total r := ⟨fun a b ↦ le_total _ _⟩
  have : IsTrans _ r := ⟨fun _ _ _ ↦ le_trans⟩
  simp only [equalColumns_some]
  rcases Window.find?_firstPerPartition (fun v : Scd2Row A κ V ↦ v.sourceKey) r
    (knownVersions dimension) (some k) with ⟨hfind, hno⟩ | ⟨v, hv, hvk, hfirst, hfind⟩
  · exact Or.inl ⟨hfind, fun v hv hvk ↦ hno v (mem_knownVersions.2 ⟨hv, by rw [hvk]; rfl⟩) hvk⟩
  · refine Or.inr ⟨v, ⟨(mem_knownVersions.1 hv).1, hvk, fun w hw hwk ↦ ?_⟩, hfind⟩
    rcases hfirst w (mem_knownVersions.2 ⟨hw, by rw [hwk]; rfl⟩) hwk with hle | rfl
    · exact hle
    · exact le_rfl

end Versions

/-- All version ranges of the dimensions are disjoint. -/
structure FactDimensions.Disjoint (dimensions : FactDimensions) : Prop where
  dimCustomer : DisjointVersions dimensions.dimCustomer
  dimShop : DisjointVersions dimensions.dimShop
  dimCategory : DisjointVersions dimensions.dimCategory
  dimProduct : DisjointVersions dimensions.dimProduct

/-! ### The chain as a map -/

/-- There is one latest row per order. -/
theorem nodup_latestByOrder {P : Type} (orderId : P → ℤ) (updatedAt : P → Option Timestamp)
    (rows : List (BusinessRow ℤ P)) :
    ((latestByOrder orderId updatedAt rows).map fun row ↦ orderId row.payload).Nodup :=
  Window.nodup_map_firstPerPartition _ _ _

/-- There is one promotion per order. -/
theorem nodup_orderPromotionKeys (fns : SparkFunctions) (orderVouchers : List OrderVoucher)
    (vouchers : List Voucher) :
    ((orderPromotionKeys fns orderVouchers vouchers).map fun p ↦ p.orderId).Nodup := by
  rw [orderPromotionKeys, List.map_map]
  exact (List.map_id _).symm ▸ List.nodup_dedup _

section Join

variable (fns : SparkFunctions) (tables : FactSources) (dimensions : FactDimensions)

/-- The version of a member in force. -/
def versionInForce {A κ V : Type} (dimension : List (Scd2Row A κ V)) (sourceKey : Option ℤ)
    (t : Option Timestamp) : Option (Scd2Row A κ V) :=
  (knownVersions dimension).find? (versionMatch sourceKey t)

/-- The first version of a member. -/
def firstVersion {A κ V : Type} (dimension : List (Scd2Row A κ V)) (sourceKey : Option ℤ) :
    Option (Scd2Row A κ V) :=
  (firstScd2Version dimension).find? fun v ↦ equalColumns sourceKey v.sourceKey

/-- The order of an item. -/
def FactSources.orderOf (item : OrderItem) : Option Order :=
  tables.orders.find? fun o ↦ item.payload.orderId = o.key

/-- An order item joined with all that belongs to it. -/
def joinItem (item : OrderItem) : JoinedItem :=
  let order := tables.orderOf item
  let t := order.map fun o ↦ o.createdAt
  let customerId := order.bind fun o ↦ o.payload.customerId
  let product := versionInForce dimensions.dimProduct item.payload.productVariantId t
  let firstProduct := firstVersion dimensions.dimProduct item.payload.productVariantId
  let categoryId := (product.bind fun p ↦ p.attributes.sourceCategoryId).or
    (firstProduct.bind fun p ↦ p.attributes.sourceCategoryId)
  { item := item
    order := order
    customer := versionInForce dimensions.dimCustomer customerId t
    firstCustomer := firstVersion dimensions.dimCustomer customerId
    product := product
    firstProduct := firstProduct
    shop := versionInForce dimensions.dimShop item.payload.shopId t
    firstShop := firstVersion dimensions.dimShop item.payload.shopId
    category := versionInForce dimensions.dimCategory categoryId t
    firstCategory := firstVersion dimensions.dimCategory categoryId
    payment := (latestByOrder PaymentColumns.orderId PaymentColumns.updatedAt
      tables.payments).find? fun p ↦ item.payload.orderId = p.payload.orderId
    shipment := (latestByOrder ShipmentColumns.orderId ShipmentColumns.updatedAt
      tables.shipments).find? fun s ↦ item.payload.orderId = s.payload.orderId
    promotion := (orderPromotionKeys fns tables.orderVouchers tables.vouchers).find? fun p ↦
      item.payload.orderId = p.orderId }

/-- Joining keeps the item. -/
@[simp] theorem joinItem_item (item : OrderItem) :
    (joinItem fns tables dimensions item).item = item := rfl

/-- And so its order id. -/
@[simp] theorem joinItem_orderId (item : OrderItem) :
    (joinItem fns tables dimensions item).orderId = item.payload.orderId := rfl

/-- The header that is joined is that of the order of the item. -/
@[simp] theorem joinItem_order (item : OrderItem) :
    (joinItem fns tables dimensions item).order = tables.orderOf item := rfl

/-- A fact row names its item. -/
@[simp] theorem factRow_sourceOrderItemId (before : List JoinedItem) (j : JoinedItem)
    (after : List JoinedItem) : (factRow fns before j after).sourceOrderItemId = j.item.key := rfl

/-- And its order. -/
@[simp] theorem factRow_sourceOrderId (before : List JoinedItem) (j : JoinedItem)
    (after : List JoinedItem) : (factRow fns before j after).sourceOrderId = j.orderId := rfl

variable {tables dimensions}

/-- **The chain of joins is a map over the order items.** -/
theorem joinedItems_eq_map (htables : tables.UniqueKeys) (hdims : dimensions.Disjoint) :
    joinedItems fns tables dimensions = tables.orderItems.map (joinItem fns tables dimensions) := by
  have horders := fun j : JoinedItem ↦ Relational.length_filter_eq_le_one htables.orders j.orderId
  have hpayments := fun j : JoinedItem ↦ Relational.length_filter_eq_le_one
    (nodup_latestByOrder PaymentColumns.orderId PaymentColumns.updatedAt tables.payments) j.orderId
  have hshipments := fun j : JoinedItem ↦ Relational.length_filter_eq_le_one
    (nodup_latestByOrder ShipmentColumns.orderId ShipmentColumns.updatedAt tables.shipments)
    j.orderId
  have hpromotions := fun j : JoinedItem ↦ Relational.length_filter_eq_le_one
    (nodup_orderPromotionKeys fns tables.orderVouchers tables.vouchers) j.orderId
  rw [joinedItems, Relational.leftJoinWith_eq_map fun j _ ↦ horders j,
    Relational.leftJoinWith_eq_map fun j _ ↦
      length_filter_versionMatch_le_one hdims.dimCustomer _ _,
    Relational.leftJoinWith_eq_map fun j _ ↦ length_filter_firstScd2Version_le_one _ _,
    Relational.leftJoinWith_eq_map fun j _ ↦
      length_filter_versionMatch_le_one hdims.dimProduct _ _,
    Relational.leftJoinWith_eq_map fun j _ ↦ length_filter_firstScd2Version_le_one _ _,
    Relational.leftJoinWith_eq_map fun j _ ↦
      length_filter_versionMatch_le_one hdims.dimShop _ _,
    Relational.leftJoinWith_eq_map fun j _ ↦ length_filter_firstScd2Version_le_one _ _,
    Relational.leftJoinWith_eq_map fun j _ ↦
      length_filter_versionMatch_le_one hdims.dimCategory _ _,
    Relational.leftJoinWith_eq_map fun j _ ↦ length_filter_firstScd2Version_le_one _ _,
    Relational.leftJoinWith_eq_map fun j _ ↦ hpayments j,
    Relational.leftJoinWith_eq_map fun j _ ↦ hshipments j,
    Relational.leftJoinWith_eq_map fun j _ ↦ hpromotions j]
  simp only [List.map_map]
  rfl

/-! ### Fact rows -/

/-- Every fact row is computed from a joined item and the other lines of its order. -/
theorem mem_buildFactSales (htables : tables.UniqueKeys) (hdims : dimensions.Disjoint)
    {fact : FactRow} (hfact : fact ∈ buildFactSales fns tables dimensions) :
    ∃ item ∈ tables.orderItems, ∃ before after,
      fact = factRow fns before (joinItem fns tables dimensions item) after := by
  rw [buildFactSales, joinedItems_eq_map fns htables hdims, Window.mem_overPartition] at hfact
  obtain ⟨j, -, before, j', after, hsort, rfl⟩ := hfact
  have hj' : j' ∈ before ++ j' :: after := List.mem_append_right _ List.mem_cons_self
  rw [← hsort, List.mem_insertionSort, List.mem_filter, List.mem_map] at hj'
  obtain ⟨⟨item, hitem, rfl⟩, -⟩ := hj'
  exact ⟨item, hitem, before, after, rfl⟩

/-- **There is one fact row per order item.** -/
theorem map_sourceOrderItemId_perm (htables : tables.UniqueKeys) (hdims : dimensions.Disjoint) :
    ((buildFactSales fns tables dimensions).map fun fact ↦ fact.sourceOrderItemId).Perm
      (tables.orderItems.map fun item ↦ item.key) := by
  rw [buildFactSales, joinedItems_eq_map fns htables hdims]
  have hperm := Window.map_overPartition_perm JoinedItem.orderId
    (fun a b : JoinedItem ↦ b.item.key ≤ a.item.key) (f := factRow fns)
    (g := fun fact ↦ fact.sourceOrderItemId) (h := fun j ↦ j.item.key) (fun _ _ _ ↦ rfl)
    (tables.orderItems.map (joinItem fns tables dimensions))
  rwa [List.map_map] at hperm

end Join

/-! ### Small orders -/

/-- An item of shop 7. -/
def smallItem (orderId id variant quantity unitPrice tax discount : ℤ) : OrderItem where
  key := id
  createdAt := 100
  payload :=
    { orderId := orderId
      shopId := some 7
      productId := some 20
      productVariantId := some variant
      productNameSnapshot := none
      productSkuSnapshot := none
      variantNameSnapshot := none
      variantSkuSnapshot := none
      variantOptionsSnapshot := none
      quantity := some quantity
      unitPrice := some unitPrice
      currency := none
      taxAmount := some tax
      discountAmount := some discount
      itemSubtotal := none
      itemTotal := none
      updatedAt := some 100 }

/-- An order of customer 5, created at 100. -/
def smallOrder (id subtotal shipping tax discount : ℤ) : Order where
  key := id
  createdAt := 100
  payload :=
    { publicOrderId := none
      customerId := some 5
      orderNumber := none
      orderStatus := none
      paymentStatus := none
      shippingAddressId := none
      billingAddressId := none
      shippingAddressSnapshot := none
      billingAddressSnapshot := none
      subtotalAmount := some subtotal
      shippingAmount := some shipping
      taxAmount := some tax
      discountAmount := some discount
      totalAmount := some (subtotal + shipping + tax - discount)
      currency := none
      updatedAt := some 100 }

/-- A payment of order 1. -/
def smallPayment (id : ℤ) (updatedAt : Timestamp) : Payment where
  key := id
  createdAt := 100
  payload :=
    { publicPaymentId := none
      orderId := 1
      paymentMethod := none
      paymentStatus := none
      amount := some 980
      currency := none
      paidAt := none
      updatedAt := some updatedAt }

/-- Order 1 with three items and two payments. -/
def smallSources : FactSources where
  orders := [smallOrder 1 1000 50 30 100]
  orderItems := [smallItem 1 11 21 1 333 10 20, smallItem 1 12 21 1 334 10 0,
    smallItem 1 13 22 1 333 10 5]
  orderVouchers := []
  vouchers := []
  payments := [smallPayment 31 100, smallPayment 32 110]
  shipments := []

/-- A version of a member, all other columns as in the unknown member. -/
def smallVersion {A κ V : Type} (attributes : A) (sourceKey surrogateKey : ℤ)
    (effectiveFrom effectiveTo : Timestamp) : Scd2Row A κ V :=
  { unknownMember attributes with
    surrogateKey := surrogateKey
    sourceKey := some sourceKey
    effectiveFrom := effectiveFrom
    effectiveTo := effectiveTo }

/-- Two versions of the customer, one of variant 21, and a shop and a category recorded only after
the order. -/
def smallDimensions : FactDimensions where
  dimCustomer := [unknownMember unknownCustomer, smallVersion unknownCustomer 5 501 50 100,
    smallVersion unknownCustomer 5 502 100 openEndedEffectiveTo]
  dimShop := [unknownMember unknownShop, smallVersion unknownShop 7 701 150 openEndedEffectiveTo]
  dimCategory := [unknownMember unknownCategory,
    smallVersion unknownCategory 40 401 120 openEndedEffectiveTo]
  dimProduct := [unknownMember unknownProduct,
    smallVersion { unknownProduct with sourceCategoryId := some 40 } 21 211 60 openEndedEffectiveTo]

/-- No key occurs twice. -/
theorem uniqueKeys_smallSources : smallSources.UniqueKeys := by
  constructor <;> decide

/-- The two versions of the customer meet at 100, and cover no instant together. -/
theorem disjoint_smallDimensions : smallDimensions.Disjoint := by
  constructor <;> exact disjointVersions_of_consecutive (by decide)

end LakehousePipeline
