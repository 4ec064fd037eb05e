import LakehousePipeline.Gold.Dimensions
import LakehousePipeline.Gold.Scd2Dimensions
import LakehousePipeline.Library.Allocation

/-!
# `build_fact_sales`

One row per order item: the item is joined with its order, with the versions of customer, product,
shop and category in force when the order was created, with the first version of each (for orders
older than the recorded history), and with the order's latest payment, latest shipment and
promotion. The joins are a chain on one record, `JoinedItem`, which holds what has been found so
far.

Money is allocated over the lines of an order. All windows are partitioned by the order, and the
only order in them is the one that finds the last line, so one window function computes a fact row
from the row and the rows around it. Amounts are integers in cents, and the casts to `decimal(18,2)`
are exact. The division behind a share is not: its quotient has the digits the types of its operands
leave in a `decimal(38, _)`, and `bround` rounds that quotient to cents. `created_at` and
`updated_at` hold the time of the build and are left out.
-/

namespace LakehousePipeline

/-! ### Inputs -/

/-- The Silver tables `build_fact_sales` reads (`FACT_SOURCE_TABLES`). -/
structure FactSources where
  orders : List Order
  orderItems : List OrderItem
  orderVouchers : List OrderVoucher
  vouchers : List Voucher
  payments : List Payment
  shipments : List Shipment

/-- The SCD2 dimensions `build_fact_sales` reads. -/
structure FactDimensions where
  dimCustomer : List CustomerRow
  dimShop : List ShopRow
  dimCategory : List CategoryRow
  dimProduct : List ProductRow

/-- `latest_by_order`: the row of each order with the greatest `updated_at`, then the greatest
key. -/
def latestByOrder {P : Type} (orderId : P → ℤ) (updatedAt : P → Option Timestamp)
    (rows : List (BusinessRow ℤ P)) : List (BusinessRow ℤ P) :=
  Window.firstPerPartition (fun row ↦ orderId row.payload)
    (fun a b ↦ (toLex (descNullsLast (updatedAt b.payload), b.key) : WithBot ℤ ×ₗ ℤ) ≤
      toLex (descNullsLast (updatedAt a.payload), a.key)) rows

section Versions

variable {A κ V : Type}

/-- The versions of known members. -/
def knownVersions (dimension : List (Scd2Row A κ V)) : List (Scd2Row A κ V) :=
  dimension.filter fun v ↦ v.sourceKey.isSome

/-- `_first_scd2_version`: the first version of each member. -/
def firstScd2Version (dimension : List (Scd2Row A κ V)) : List (Scd2Row A κ V) :=
  Window.firstPerPartition (fun v ↦ v.sourceKey)
    (fun a b ↦ (toLex (a.effectiveFrom, a.surrogateKey) : ℤ ×ₗ ℤ) ≤
      toLex (b.effectiveFrom, b.surrogateKey)) (knownVersions dimension)

/-- The condition of the version joins: the member's version in force at a nullable time. -/
def versionMatch (sourceKey : Option ℤ) (t : Option Timestamp) (v : Scd2Row A κ V) : Bool :=
  equalColumns sourceKey v.sourceKey && t.any fun t ↦ v.Covers t

end Versions

/-! ### The joins -/

/-- An order item with everything that was joined to it. -/
structure JoinedItem where
  item : OrderItem
  order : Option Order
  customer : Option CustomerRow
  firstCustomer : Option CustomerRow
  product : Option ProductRow
  firstProduct : Option ProductRow
  shop : Option ShopRow
  firstShop : Option ShopRow
  category : Option CategoryRow
  firstCategory : Option CategoryRow
  payment : Option Payment
  shipment : Option Shipment
  promotion : Option OrderPromotion

namespace JoinedItem

/-- An item before any join. -/
def ofItem (item : OrderItem) : JoinedItem :=
  ⟨item, none, none, none, none, none, none, none, none, none, none, none, none⟩

variable (j : JoinedItem)

/-- `oi.order_id`. -/
def orderId : ℤ :=
  j.item.payload.orderId

/-- `o.created_at`. -/
def orderedAt : Option Timestamp :=
  j.order.map fun o ↦ o.createdAt

/-- `o.customer_id`. -/
def customerId : Option ℤ :=
  j.order.bind fun o ↦ o.payload.customerId

/-- `coalesce(product.source_category_id, first_product.source_category_id)`. -/
def sourceCategoryId : Option ℤ :=
  (j.product.bind fun p ↦ p.attributes.sourceCategoryId).or
    (j.firstProduct.bind fun p ↦ p.attributes.sourceCategoryId)

end JoinedItem

open Relational in
/-- The chain of joins. -/
def joinedItems (fns : SparkFunctions) (tables : FactSources) (dimensions : FactDimensions) :
    List JoinedItem :=
  let items := tables.orderItems.map JoinedItem.ofItem
  let items := leftJoinWith (fun j o ↦ j.orderId = o.key)
    (fun j o ↦ { j with order := o }) items tables.orders
  let items := leftJoinWith (fun j v ↦ versionMatch j.customerId j.orderedAt v)
    (fun j v ↦ { j with customer := v }) items (knownVersions dimensions.dimCustomer)
  let items := leftJoinWith (fun j v ↦ equalColumns j.customerId v.sourceKey)
    (fun j v ↦ { j with firstCustomer := v }) items (firstScd2Version dimensions.dimCustomer)
  let items := leftJoinWith
    (fun j v ↦ versionMatch j.item.payload.productVariantId j.orderedAt v)
    (fun j v ↦ { j with product := v }) items (knownVersions dimensions.dimProduct)
  let items := leftJoinWith (fun j v ↦ equalColumns j.item.payload.productVariantId v.sourceKey)
    (fun j v ↦ { j with firstProduct := v }) items (firstScd2Version dimensions.dimProduct)
  let items := leftJoinWith (fun j v ↦ versionMatch j.item.payload.shopId j.orderedAt v)
    (fun j v ↦ { j with shop := v }) items (knownVersions dimensions.dimShop)
  let items := leftJoinWith (fun j v ↦ equalColumns j.item.payload.shopId v.sourceKey)
    (fun j v ↦ { j with firstShop := v }) items (firstScd2Version dimensions.dimShop)
  let items := leftJoinWith (fun j v ↦ versionMatch j.sourceCategoryId j.orderedAt v)
    (fun j v ↦ { j with category := v }) items (knownVersions dimensions.dimCategory)
  let items := leftJoinWith (fun j v ↦ equalColumns j.sourceCategoryId v.sourceKey)
    (fun j v ↦ { j with firstCategory := v }) items (firstScd2Version dimensions.dimCategory)
  let items := leftJoinWith (fun j p ↦ j.orderId = p.payload.orderId)
    (fun j p ↦ { j with payment := p }) items
    (latestByOrder PaymentColumns.orderId PaymentColumns.updatedAt tables.payments)
  let items := leftJoinWith (fun j s ↦ j.orderId = s.payload.orderId)
    (fun j s ↦ { j with shipment := s }) items
    (latestByOrder ShipmentColumns.orderId ShipmentColumns.updatedAt tables.shipments)
  leftJoinWith (fun j p ↦ j.orderId = p.orderId)
    (fun j p ↦ { j with promotion := p }) items
    (orderPromotionKeys fns tables.orderVouchers tables.vouchers)

/-! ### Money -/

namespace JoinedItem

/-- `_gross`. -/
def gross (j : JoinedItem) : Option ℤ :=
  times j.item.payload.quantity j.item.payload.unitPrice

/-- `o.discount_amount`. -/
def orderDiscount (j : JoinedItem) : Option ℤ :=
  j.order.bind fun o ↦ o.payload.discountAmount

/-- `o.shipping_amount`. -/
def orderShipping (j : JoinedItem) : Option ℤ :=
  j.order.bind fun o ↦ o.payload.shippingAmount

end JoinedItem

/-- The digits behind the cents in the quotient for an order's amount: `decimal(12,2)` times
`decimal(18,2)` over `decimal(28,2)` is a `decimal(38,9)`. -/
def headerDigits : ℕ :=
  7

/-- The digits behind the cents in the quotient for `_order_discount_total`: a `decimal(23,2)` as a
difference with a sum, its quotient is a `decimal(38,6)`. -/
def differenceDigits : ℕ :=
  4

/-- `raw`: the share of a line, rounded to cents; nothing is shared when no line weighs anything. -/
def rawShare (digits : ℕ) (total weight weightTotal : Option ℤ) : Option ℤ :=
  match weightTotal with
  | some sum =>
    if 0 < sum then (times total weight).map fun n ↦ Allocation.roundQuotient digits n sum
    else some 0
  | none => some 0

/-- `_residual_allocation`, over the lines of an order from the last to the first. -/
def residualAllocation (digits : ℕ) (total : JoinedItem → Option ℤ) (before : List JoinedItem)
    (j : JoinedItem) (after : List JoinedItem) : Option ℤ :=
  let lines := before ++ j :: after
  let raw := fun line ↦
    rawShare digits (total line) line.gross (sumOf (lines.map JoinedItem.gross))
  if before = [] then minus (total j) (minus (sumOf (lines.map raw)) (raw j)) else raw j

/-- The computed amounts of a fact row. -/
structure LineAmounts where
  /-- `_order_discount_allocated`. -/
  orderDiscountAllocated : Option ℤ
  /-- `_shipping_allocated`. -/
  shippingAllocated : Option ℤ
  /-- `_total_discount`. -/
  totalDiscount : Option ℤ
  /-- `_net_sales`. -/
  netSales : Option ℤ

/-- The amounts of a line. -/
def lineAmounts (before : List JoinedItem) (j : JoinedItem) (after : List JoinedItem) :
    LineAmounts :=
  let lineDiscountTotal :=
    sumOf ((before ++ j :: after).map fun line ↦ line.item.payload.discountAmount)
  let orderDiscountAllocated := residualAllocation differenceDigits
    (fun line ↦ greatestOf (minus line.orderDiscount lineDiscountTotal) (some 0)) before j after
  let shippingAllocated := residualAllocation headerDigits JoinedItem.orderShipping before j after
  let totalDiscount :=
    if (Option.map₂ (fun lines order ↦ decide (lines ≤ order)) lineDiscountTotal
        j.orderDiscount).getD false then
      plus j.item.payload.discountAmount orderDiscountAllocated
    else residualAllocation headerDigits JoinedItem.orderDiscount before j after
  { orderDiscountAllocated := orderDiscountAllocated
    shippingAllocated := shippingAllocated
    totalDiscount := totalDiscount
    netSales := minus (plus (plus j.gross j.item.payload.taxAmount) shippingAllocated)
      totalDiscount }

/-! ### Keys -/

/-- The key of the version found, else of the first version if the order is older than it, else
0. -/
def versionKey {A κ V : Type} (t : Option Timestamp) (version first : Option (Scd2Row A κ V)) : ℤ :=
  ((version.map fun v ↦ v.surrogateKey).or
    (first.bind fun v ↦
      if t.any fun t ↦ t < v.effectiveFrom then some v.surrogateKey else none)).getD 0

/-- The key of a pair of columns, or 0 if both are null. -/
def pairKey (fns : SparkFunctions) (a b : Option Text) : ℤ :=
  if a = none ∧ b = none then 0 else positiveHashKey fns (naturalHash fns [a, b])

/-- The key of an address snapshot. -/
def locationKey (fns : SparkFunctions) (snapshot : Option Text) : ℤ :=
  positiveHashKey fns (locationHashFromJson fns snapshot)

/-- A row of `fact_sales`. -/
structure FactRow where
  salesKey : ℤ
  orderDateKey : ℤ
  orderTimeKey : ℤ
  customerKey : ℤ
  productKey : ℤ
  shopKey : ℤ
  categoryKey : ℤ
  promotionKey : ℤ
  paymentKey : ℤ
  shippingKey : ℤ
  shipToLocationKey : ℤ
  billToLocationKey : ℤ
  sourceOrderId : ℤ
  sourceOrderItemId : ℤ
  orderNumber : Option Text
  orderStatus : Option Text
  paymentStatus : Option Text
  sourceCustomerId : Option ℤ
  sourceProductId : Option ℤ
  sourceProductVariantId : Option ℤ
  sourceShopId : Option ℤ
  sourceCategoryId : Option ℤ
  currency : Option Text
  quantity : Option ℤ
  unitPriceAmount : Option ℤ
  grossSalesAmount : Option ℤ
  lineDiscountAmount : Option ℤ
  orderDiscountAmountAllocated : Option ℤ
  totalDiscountAmount : Option ℤ
  taxAmount : Option ℤ
  shippingAmountAllocated : Option ℤ
  netSalesAmount : Option ℤ
  orderCreatedAt : Option Timestamp
  orderItemCreatedAt : Timestamp
  deriving DecidableEq

/-- `sales_key`. -/
def salesKey (fns : SparkFunctions) (orderId orderItemId : ℤ) : ℤ :=
  positiveHashKey fns
    (concatWs hashSeparator [some (fns.castInt orderId), some (fns.castInt orderItemId)])

/-- The fact row of a line, among the lines of its order from the last to the first. -/
def factRow (fns : SparkFunctions) (before : List JoinedItem) (j : JoinedItem)
    (after : List JoinedItem) : FactRow :=
  let amounts := lineAmounts before j after
  let item := j.item.payload
  { salesKey := salesKey fns j.orderId j.item.key
    orderDateKey := (j.orderedAt.map fun t ↦ fns.dateFormat (toDate t)).getD 0
    orderTimeKey := (j.orderedAt.map secondOfDayKey).getD 0
    customerKey := versionKey j.orderedAt j.customer j.firstCustomer
    productKey := versionKey j.orderedAt j.product j.firstProduct
    shopKey := versionKey j.orderedAt j.shop j.firstShop
    categoryKey := versionKey j.orderedAt j.category j.firstCategory
    promotionKey := (j.promotion.map fun p ↦ p.promotionKey).getD 0
    paymentKey := pairKey fns (j.payment.bind fun p ↦ p.payload.paymentMethod)
      (j.payment.bind fun p ↦ p.payload.paymentStatus)
    shippingKey := pairKey fns (j.shipment.bind fun s ↦ s.payload.carrier)
      (j.shipment.bind fun s ↦ s.payload.shipmentStatus)
    shipToLocationKey := locationKey fns (j.order.bind fun o ↦ o.payload.shippingAddressSnapshot)
    billToLocationKey := locationKey fns (j.order.bind fun o ↦ o.payload.billingAddressSnapshot)
    sourceOrderId := j.orderId
    sourceOrderItemId := j.item.key
    orderNumber := j.order.bind fun o ↦ o.payload.orderNumber
    orderStatus := j.order.bind fun o ↦ o.payload.orderStatus
    paymentStatus := j.order.bind fun o ↦ o.payload.paymentStatus
    sourceCustomerId := j.customerId
    sourceProductId := item.productId
    sourceProductVariantId := item.productVariantId
    sourceShopId := item.shopId
    sourceCategoryId := j.sourceCategoryId
    currency := item.currency
    quantity := item.quantity
    unitPriceAmount := item.unitPrice
    grossSalesAmount := j.gross
    lineDiscountAmount := item.discountAmount
    orderDiscountAmountAllocated := amounts.orderDiscountAllocated
    totalDiscountAmount := amounts.totalDiscount
    taxAmount := item.taxAmount
    shippingAmountAllocated := amounts.shippingAllocated
    netSalesAmount := amounts.netSales
    orderCreatedAt := j.orderedAt
    orderItemCreatedAt := j.item.createdAt }

/-- `build_fact_sales`. -/
def buildFactSales (fns : SparkFunctions) (tables : FactSources) (dimensions : FactDimensions) :
    List FactRow :=
  Window.overPartition JoinedItem.orderId (fun a b ↦ b.item.key ≤ a.item.key) (factRow fns)
    (joinedItems fns tables dimensions)

end LakehousePipeline
