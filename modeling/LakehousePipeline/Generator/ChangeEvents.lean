import LakehousePipeline.Generator.Orders

/-!
# Change events

What a batch of the continuous generator does after its orders: one row of each kind is updated, the
order that has waited longest moves on, the oldest seeded order is deleted with everything that
refers to it, and the delete marker among the vouchers is replaced.

Each part is named after its function in the source, and where that runs an `UPDATE` or a `DELETE`,
the statement has a definition of its own, with the rows it selects: `firstOpen`, `firstBaseline`
and `firstMarker` are the `ORDER BY … LIMIT 1` of the source. A part that the database can refuse
is in `Except`, with the constraint as its error; the parts that always succeed are functions.

The batch is one transaction. A refusal of any part takes the orders of the batch back with it, and
the next batch begins from the same rows.
-/

namespace LakehousePipeline.Generator

open Checks KeyedTables

/-- What is drawn for a batch of changes, and the id of the new voucher. -/
structure ChangeDraws where
  user : RuntimeUser
  phoneNumber : ℕ
  houseNumber : ℕ
  variant : Variant
  pricePercent : ℤ
  stockChange : ℤ
  productId : ℤ
  shopId : ℤ
  categoryId : ℤ
  markerId : ℤ

/-- What the calls of `rng` can give. -/
structure ChangeDraws.Drawn (db : OltpDatabase) (state : RuntimeState) (draws : ChangeDraws) :
    Prop where
  user : draws.user ∈ state.users
  phoneNumber : 10000000 ≤ draws.phoneNumber ∧ draws.phoneNumber ≤ 99999999
  houseNumber : 1 ≤ draws.houseNumber ∧ draws.houseNumber ≤ 999
  variant : draws.variant ∈ state.variants
  pricePercent : draws.pricePercent ∈ [98, 101, 103]
  stockChange : -5 ≤ draws.stockChange ∧ draws.stockChange ≤ 20
  productId : draws.productId ∈ state.variants.map fun variant ↦ variant.productId
  shopId : draws.shopId ∈ state.variants.map fun variant ↦ variant.shopId
  categoryId : db.categories ≠ [] → draws.categoryId ∈ db.categories.map fun row ↦ row.key

instance (db : OltpDatabase) (state : RuntimeState) (draws : ChangeDraws) :
    Decidable (draws.Drawn db state) :=
  decidable_of_iff
    (draws.user ∈ state.users ∧ (10000000 ≤ draws.phoneNumber ∧ draws.phoneNumber ≤ 99999999) ∧
      (1 ≤ draws.houseNumber ∧ draws.houseNumber ≤ 999) ∧ draws.variant ∈ state.variants ∧
      draws.pricePercent ∈ ([98, 101, 103] : List ℤ) ∧
      (-5 ≤ draws.stockChange ∧ draws.stockChange ≤ 20) ∧
      draws.productId ∈ (state.variants.map fun variant ↦ variant.productId) ∧
      draws.shopId ∈ (state.variants.map fun variant ↦ variant.shopId) ∧
      (db.categories ≠ [] → draws.categoryId ∈ db.categories.map fun row ↦ row.key))
    ⟨fun ⟨huser, hphone, hhouse, hvariant, hpercent, hstock, hproduct, hshop, hcategory⟩ ↦
      ⟨huser, hphone, hhouse, hvariant, hpercent, hstock, hproduct, hshop, hcategory⟩,
    fun h ↦ ⟨h.user, h.phoneNumber, h.houseNumber, h.variant, h.pricePercent, h.stockChange,
      h.productId, h.shopId, h.categoryId⟩⟩

/-! ### Updates of one row -/

section Updates

variable (draws : ChangeDraws) (changedAt : Timestamp) (db : OltpDatabase)

/-- `update_customer`. -/
def updateCustomer : OltpDatabase :=
  { db with
    appUsers := updateWhere (fun user ↦ user.key = draws.user.userId)
      (fun user ↦ { user with payload := { user.payload with
        lastLogin := some changedAt
        phoneNumber := some ("09".toList ++ Nat.toDigits 10 draws.phoneNumber)
        updatedAt := some changedAt } }) db.appUsers
    userAddresses := updateWhere (fun address ↦ address.key = draws.user.addressId)
      (fun address ↦ { address with payload := { address.payload with
        fields := { address.payload.fields with
          street := some (Nat.toDigits 10 draws.houseNumber ++ " Nguyen Trai".toList) }
        updatedAt := some changedAt } }) db.userAddresses }

/-- The row of a variant after `update_product_variant`. Its price is that of the state the batch
has loaded. -/
def repriced (row : BusinessRow ℤ VariantColumns) : BusinessRow ℤ VariantColumns :=
  let newPrice := percentOf draws.pricePercent draws.variant.unitPrice
  { row with payload := { row.payload with
    unitPrice := some newPrice
    compareAtPrice := row.payload.compareAtPrice.map fun price ↦ max price newPrice
    stockQuantity := row.payload.stockQuantity.map fun stock ↦ max (stock + draws.stockChange) 0
    updatedAt := some changedAt } }

/-- The update of `update_product_variant`. -/
def repricedVariant : OltpDatabase :=
  { db with
    productVariants := updateWhere (fun row ↦ row.key = draws.variant.productVariantId)
      (repriced draws changedAt) db.productVariants }

/-- **The new numbers of the variant are in range.** -/
def RepricedInRange : Prop :=
  ∀ row ∈ db.productVariants, row.key = draws.variant.productVariantId →
    InRange .productVariants (repriced draws changedAt row).payload

instance : Decidable (RepricedInRange draws changedAt db) :=
  inferInstanceAs (Decidable (∀ row ∈ db.productVariants, _ → ∀ column ∈ numbersOf .productVariants
    (repriced draws changedAt row).payload, ∀ n ∈ column.2, n < column.1))

/-- `update_product_variant`, which the database refuses if a number leaves its range or fails its
`CHECK`. -/
def updateProductVariant : Except OltpError OltpDatabase := do
  ensure (RepricedInRange draws changedAt db) (.outOfRange .productVariants)
  ensure (∀ row ∈ db.productVariants, row.key = draws.variant.productVariantId →
    VariantChecks (repriced draws changedAt row).payload) (.amounts .productVariants)
  return repricedVariant draws changedAt db

/-- `update_product`. -/
def updateProduct : OltpDatabase :=
  { db with
    products := updateWhere (fun row ↦ row.key = draws.productId)
      (fun row ↦ { row with payload := { row.payload with
        isFeatured := row.payload.isFeatured.map not
        updatedAt := some changedAt } }) db.products }

/-- The suffix `update_shop` puts on a name and takes off again. -/
def streamSuffix : Text :=
  " [stream]".toList

/-- `update_shop`. -/
def updateShop : OltpDatabase :=
  { db with
    shops := updateWhere (fun row ↦ row.key = draws.shopId)
      (fun row ↦ { row with payload := { row.payload with
        shopName := row.payload.shopName.map fun name ↦
          if streamSuffix <:+ name then name.take (name.length - streamSuffix.length)
          else name ++ streamSuffix
        updatedAt := some changedAt } }) db.shops }

/-- The update of `update_category`. -/
def updatedCategory : OltpDatabase :=
  { db with
    categories := updateWhere (fun row ↦ row.key = draws.categoryId)
      (fun row ↦ { row with payload := { row.payload with
        isActive := row.payload.isActive.map not
        updatedAt := some changedAt } }) db.categories }

/-- `update_category`. -/
def updateCategory : Except OltpError OltpDatabase := do
  ensure (db.categories ≠ []) .noCategories
  return updatedCategory draws changedAt db

end Updates

/-! ### `advance_order` -/

/-- The statuses an order is advanced from. -/
def openStatuses : List OrderStatus :=
  [.pendingPayment, .confirmed, .processing, .shipped, .delivered]

/-- The status of an order that can be advanced. -/
def openStatus (order : Order) : Option OrderStatus :=
  openStatuses.find? fun status ↦ order.payload.orderStatus = some status.text

/-- `ORDER BY updated_at, order_id`. -/
def waitingSince (order : Order) : ℤ ×ₗ ℤ :=
  toLex (order.payload.updatedAt.getD 0, order.key)

/-- The order that has waited longest. -/
def firstOpen (db : OltpDatabase) : Option Order :=
  (db.orders.filter fun order ↦ (openStatus order).isSome).argmin waitingSince

/-- The payment status of an order with a status. -/
def paymentStatusOf (status : OrderStatus) : PaymentStatus :=
  if status ≠ .pendingPayment then .paid else .pending

/-- `UPDATE orders`. -/
def advancedOrder (status : OrderStatus) (changedAt : Timestamp) (order : Order) : Order :=
  { order with payload := { order.payload with
    orderStatus := some status.text
    paymentStatus := some (paymentStatusOf status).text
    updatedAt := some changedAt } }

/-- `UPDATE payments`. -/
def advancedPayment (status : OrderStatus) (changedAt : Timestamp) (payment : Payment) : Payment :=
  { payment with payload := { payment.payload with
    paymentStatus := some (paymentStatusOf status).text
    paidAt :=
      if paymentStatusOf status = .paid then payment.payload.paidAt.or (some changedAt)
      else payment.payload.paidAt
    updatedAt := some changedAt } }

/-- `UPDATE shipments`. -/
def advancedShipment (status : OrderStatus) (changedAt : Timestamp) (shipment : Shipment) :
    Shipment :=
  let next := shipmentStatus status
  { shipment with payload := { shipment.payload with
    shipmentStatus := some next.text
    shippedAt :=
      if next = .inTransit ∨ next = .delivered then shipment.payload.shippedAt.or (some changedAt)
      else shipment.payload.shippedAt
    deliveredAt :=
      if next = .delivered then shipment.payload.deliveredAt.or (some changedAt)
      else shipment.payload.deliveredAt
    updatedAt := some changedAt } }

/-- The three updates of `advance_order`; the last one is refused if a shipment would be delivered
before it is shipped. -/
def advanceTo (db : OltpDatabase) (orderId : ℤ) (status : OrderStatus) (changedAt : Timestamp) :
    Except OltpError OltpDatabase := do
  let shipments := updateWhere (fun row : Shipment ↦ row.payload.orderId = orderId)
    (advancedShipment status changedAt) db.shipments
  ensure (∀ row ∈ shipments, row.payload.orderId = orderId → TimeOrder row.payload)
    .shipmentTimeOrder
  return { db with
    orders := updateWhere (fun row : Order ↦ row.key = orderId) (advancedOrder status changedAt)
      db.orders
    payments := updateWhere (fun row : Payment ↦ row.payload.orderId = orderId)
      (advancedPayment status changedAt) db.payments
    shipments := shipments }

/-- `advance_order`: the database and the order that moved on. -/
def advanceOrder (db : OltpDatabase) (changedAt : Timestamp) :
    Except OltpError (OltpDatabase × Option ℤ) :=
  match firstOpen db with
  | none => .ok (db, none)
  | some order =>
    match openStatus order with
    | none => .ok (db, none)
    | some status => do
      let db ← advanceTo db order.key (nextOrderStatus status) changedAt
      return (db, some order.key)

/-! ### `delete_baseline_order` -/

/-- `order_number ~ '^ORD-[0-9]{6}$'`. -/
def isBaselineNumber (orderNumber : Text) : Bool :=
  orderNumber.length = 10 && orderNumber.take 4 = "ORD-".toList &&
    (orderNumber.drop 4).all fun c ↦ '0' ≤ c && c ≤ '9'

/-- The seeded order that is deleted. -/
def firstBaseline (db : OltpDatabase) (excludeOrderId : Option ℤ) : Option Order :=
  (db.orders.filter fun order ↦ order.payload.orderNumber.any isBaselineNumber &&
    excludeOrderId.all fun orderId ↦ order.key ≠ orderId).argmin
      fun order ↦ (toLex (order.createdAt, order.key) : ℤ ×ₗ ℤ)

/-- `DELETE FROM orders` of one order; the foreign keys to it are `ON DELETE CASCADE`. -/
def deleteOrder (db : OltpDatabase) (orderId : ℤ) : OltpDatabase :=
  { db with
    orders := db.orders.filter fun row ↦ row.key ≠ orderId
    orderItems := db.orderItems.filter fun row ↦ row.payload.orderId ≠ orderId
    orderVouchers := db.orderVouchers.filter fun row ↦ row.payload.orderId ≠ orderId
    payments := db.payments.filter fun row ↦ row.payload.orderId ≠ orderId
    shipments := db.shipments.filter fun row ↦ row.payload.orderId ≠ orderId }

/-- `delete_baseline_order`. -/
def deleteBaselineOrder (db : OltpDatabase) (excludeOrderId : Option ℤ) :
    OltpDatabase × Option ℤ :=
  match firstBaseline db excludeOrderId with
  | none => (db, none)
  | some order => (deleteOrder db order.key, some order.key)

/-! ### `rotate_delete_marker_voucher` -/

/-- `DELETE_MARKER_PREFIX`. -/
def deleteMarkerPrefix : Text :=
  "CDC_DELETE_".toList

/-- `voucher_code LIKE 'CDC_DELETE_%'`, where an underscore stands for any character. -/
def isDeleteMarker (voucher : Voucher) : Bool :=
  voucher.payload.voucherCode.any fun code ↦
    deleteMarkerPrefix.length ≤ code.length && code.take 3 = "CDC".toList &&
      (code.drop 4).take 6 = "DELETE".toList

/-- The marker that is deleted: one that no order uses. -/
def firstMarker (db : OltpDatabase) : Option Voucher :=
  (db.vouchers.filter fun voucher ↦ isDeleteMarker voucher &&
    db.orderVouchers.all fun use ↦ use.payload.voucherId ≠ some voucher.key).argmin
      fun voucher ↦ (toLex (voucher.payload.updatedAt.getD 0, voucher.key) : ℤ ×ₗ ℤ)

/-- The row of `_insert_delete_marker_voucher`. -/
def markerRow (voucherId : ℤ) (changedAt : Timestamp) (suffix : Text) : Voucher where
  key := voucherId
  createdAt := changedAt
  payload := {
    voucherCode := some (deleteMarkerPrefix ++ suffix)
    voucherName := some (deleteMarkerPrefix ++ suffix)
    shopId := none
    discountType := some "fixed".toList
    discountValue := some (money 1000)
    maxDiscountAmount := none
    minimumOrderAmount := some 0
    scopeJson := some "\x7b\"type\": \"delete-marker\"\x7d".toList
    startsAt := some (changedAt - day)
    endsAt := some (changedAt + day)
    isActive := some false
    updatedAt := some changedAt }

/-- `INSERT INTO vouchers`. -/
def insertVoucher (db : OltpDatabase) (voucher : Voucher) : Except OltpError OltpDatabase := do
  let vouchers ← insertRow (fun row : Voucher ↦ row.key) db.checkVoucher (.duplicateKey .vouchers)
    db.vouchers voucher
  return { db with vouchers := vouchers }

/-- `rotate_delete_marker_voucher`. -/
def rotateDeleteMarkerVoucher (render : Rendering) (db : OltpDatabase) (markerId : ℤ)
    (changedAt : Timestamp) : Except OltpError OltpDatabase :=
  let db := match firstMarker db with
    | none => db
    | some marker => { db with vouchers := db.vouchers.filter fun row ↦ row.key ≠ marker.key }
  insertVoucher db (markerRow markerId changedAt (render.stamp changedAt))

/-! ### A batch of changes -/

/-- `apply_change_events`. -/
def applyChangeEvents (render : Rendering) (db : OltpDatabase) (draws : ChangeDraws)
    (changedAt : Timestamp) : Except OltpError OltpDatabase := do
  let db := updateCustomer draws changedAt db
  let db ← updateProductVariant draws changedAt db
  let db := updateProduct draws changedAt db
  let db := updateShop draws changedAt db
  let db ← updateCategory draws changedAt db
  let (db, advancedOrderId) ← advanceOrder db changedAt
  let (db, _) := deleteBaselineOrder db advancedOrderId
  rotateDeleteMarkerVoucher render db draws.markerId changedAt

end LakehousePipeline.Generator
