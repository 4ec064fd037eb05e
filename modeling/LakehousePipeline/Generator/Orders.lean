import LakehousePipeline.Generator.Database
import Mathlib.Data.List.MinMax

/-!
# The data generator

What a run of the generator does to the source database: it inserts orders with their items, their
voucher, their payment and their shipment, and a batch of the continuous generator then changes a
row of every kind, advances the order that has waited longest, deletes the oldest seeded order and
replaces the delete marker among the vouchers.

Everything that is drawn at random, and the ids that identity columns give, are arguments. Money is
in cents: prices have two decimals, so `money` rounds only where an amount is multiplied by a rate,
half to even.

A draw is a record of everything the calls of `rng` return for an order, and `OrderDraws.Drawn` says
which values they can return: variants that are active, quantities and rates in the ranges of the
source. The amounts of an order are functions of its draw, named as the local variables of
`insert_order` are; the rows are made of them, and the database generates three more columns, which
are functions of the others.
-/

namespace LakehousePipeline.Generator

open Checks KeyedTables

/-! ### Money -/

/-- The quotient rounded to an integer, halves to the even one. -/
def roundHalfEven (n d : ℤ) : ℤ :=
  if 2 * (n % d) < d then n / d
  else if d < 2 * (n % d) then n / d + 1
  else if n / d % 2 = 0 then n / d
  else n / d + 1

/-- `money` of an amount times a rate in percent. -/
def percentOf (percent amount : ℤ) : ℤ :=
  roundHalfEven (percent * amount) 100

/-- `money` of a number of units. -/
def money (units : ℤ) : ℤ :=
  100 * units

/-! ### Statuses -/

/-- The statuses of payments the generator gives. -/
inductive PaymentStatus
  | paid
  | pending
  | failed
  deriving DecidableEq, Repr

/-- The text of a status. -/
def PaymentStatus.text : PaymentStatus → Text
  | .paid => "paid".toList
  | .pending => "pending".toList
  | .failed => "failed".toList

/-- `OrderStatus`. -/
inductive OrderStatus
  | pendingPayment
  | confirmed
  | processing
  | shipped
  | delivered
  | completed
  | cancelled
  deriving DecidableEq, Repr

/-- The text of a status. -/
def OrderStatus.text : OrderStatus → Text
  | .pendingPayment => "pending_payment".toList
  | .confirmed => "confirmed".toList
  | .processing => "processing".toList
  | .shipped => "shipped".toList
  | .delivered => "delivered".toList
  | .completed => "completed".toList
  | .cancelled => "cancelled".toList

/-- `ShipmentStatus`. -/
inductive ShipmentStatus
  | pending
  | packed
  | inTransit
  | delivered
  | cancelled
  deriving DecidableEq, Repr

/-- The text of a status. -/
def ShipmentStatus.text : ShipmentStatus → Text
  | .pending => "pending".toList
  | .packed => "packed".toList
  | .inTransit => "in_transit".toList
  | .delivered => "delivered".toList
  | .cancelled => "cancelled".toList

/-- `_next_order_status`. -/
def nextOrderStatus : OrderStatus → OrderStatus
  | .pendingPayment => .confirmed
  | .confirmed => .processing
  | .processing => .shipped
  | .shipped => .delivered
  | .delivered => .completed
  | .completed => .completed
  | .cancelled => .cancelled

/-- `_shipment_status`. -/
def shipmentStatus : OrderStatus → ShipmentStatus
  | .pendingPayment => .pending
  | .confirmed => .pending
  | .processing => .packed
  | .shipped => .inTransit
  | .delivered => .delivered
  | .completed => .delivered
  | .cancelled => .cancelled

/-! ### What the generator reads first -/

/-- How values are rendered as texts. -/
structure Rendering where
  /-- `to_jsonb` of an address. -/
  addressJson : Address → Text
  /-- `{"tier": variant_name.lower()}`. -/
  tierJson : Text → Text
  /-- `strftime("%Y%m%d%H%M%S%f")`. -/
  stamp : Timestamp → Text

/-- `Variant`. -/
structure Variant where
  productId : ℤ
  productVariantId : ℤ
  shopId : ℤ
  productName : Text
  productSku : Text
  variantName : Text
  variantSku : Text
  unitPrice : ℤ
  deriving DecidableEq

/-- A user with the entries of the four dictionaries of `RuntimeState`, which all have its id. -/
structure RuntimeUser where
  userId : ℤ
  addressId : ℤ
  addressSnapshot : Text
  createdAt : Timestamp
  deriving DecidableEq

/-- `RuntimeState`. -/
structure RuntimeState where
  users : List RuntimeUser
  variants : List Variant
  voucherIds : List ℤ
  deriving DecidableEq

/-- The entries of a user. A dictionary keeps the last of several addresses. -/
def runtimeUser (render : Rendering) (db : OltpDatabase) (user : User) : Option RuntimeUser :=
  (db.userAddresses.filter fun address ↦ address.payload.userId = some user.key).getLast?.map
    fun address ↦ ⟨user.key, address.key, render.addressJson address, user.createdAt⟩

/-- The variant of a row, where it and its product are active. -/
def activeVariant (db : OltpDatabase) (v : BusinessRow ℤ VariantColumns) : Option Variant := do
  let product ← db.products.find? fun product ↦ some product.key = v.payload.productId
  if product.payload.status = some "active".toList ∧ v.payload.status = some "active".toList then
    return {
      productId := product.key
      productVariantId := v.key
      shopId := product.payload.shopId.getD 0
      productName := product.payload.productName.getD []
      productSku := product.payload.productSku.getD []
      variantName := v.payload.variantName.getD []
      variantSku := v.payload.variantSku.getD []
      unitPrice := v.payload.unitPrice.getD 0 }
  else none

/-- `load_state`. Every address is a default shipping address, as `seed_users` makes them and
nothing changes that; the order of the rows only matters for what is drawn. -/
def loadState (render : Rendering) (db : OltpDatabase) : Except OltpError RuntimeState := do
  let variants := db.productVariants.filterMap (activeVariant db)
  ensure (db.appUsers ≠ [] ∧ db.userAddresses ≠ [] ∧ variants ≠ []) .notBootstrapped
  let users := db.appUsers.filterMap (runtimeUser render db)
  let voucherIds : List ℤ := (db.vouchers.filter fun voucher ↦
    voucher.payload.isActive = some true).map fun voucher ↦ voucher.key
  ensure (users.length = db.appUsers.length ∧
    (∀ user ∈ users, 0 < user.userId ∧ 0 < user.addressId) ∧
    (∀ variant ∈ variants, 0 < variant.productId ∧ 0 < variant.productVariantId ∧
      0 < variant.shopId ∧ 0 ≤ variant.unitPrice) ∧
    ∀ voucherId ∈ voucherIds, 0 < voucherId) .invalidState
  return { users := users, variants := variants, voucherIds := voucherIds }

/-! ### `insert_order` -/

/-- What is drawn for a line of an order, and the id of its row. -/
structure LineDraw where
  orderItemId : ℤ
  variant : Variant
  quantity : ℤ
  discountPercent : ℤ

/-- What is drawn for an order, and the ids of its rows. -/
structure OrderDraws where
  orderId : ℤ
  publicOrderId : Text
  user : RuntimeUser
  lines : List LineDraw
  shippingUnits : ℤ
  discountUnits : ℤ
  paymentStatus : PaymentStatus
  orderVoucherId : ℤ
  voucherId : ℤ
  paymentId : ℤ
  publicPaymentId : Text
  paymentMethod : Text
  paidMinutes : ℤ
  shipmentId : ℤ
  publicShipmentId : Text
  carrier : Text
  /-- The days from shipping to delivery, where `rng.random() > 0.25`. -/
  deliveryDays : Option ℤ

/-- What the calls of `rng` can give. -/
structure OrderDraws.Drawn (state : RuntimeState) (draws : OrderDraws) : Prop where
  user : draws.user ∈ state.users
  variants : (draws.lines.map fun line ↦ line.variant).Subperm state.variants
  lines_ne : draws.lines ≠ []
  lines_le : draws.lines.length ≤ 4
  quantity : ∀ line ∈ draws.lines, 1 ≤ line.quantity ∧ line.quantity ≤ 3
  discountPercent : ∀ line ∈ draws.lines, line.discountPercent ∈ [0, 3, 5]
  shippingUnits : draws.shippingUnits ∈ [0, 20000, 35000, 50000]
  discountUnits : draws.discountUnits ∈ [0, 20000, 50000, 80000]
  voucherId : state.voucherIds ≠ [] → draws.voucherId ∈ state.voucherIds
  paidMinutes : 1 ≤ draws.paidMinutes ∧ draws.paidMinutes ≤ 60
  deliveryDays : ∀ days ∈ draws.deliveryDays, 1 ≤ days ∧ days ≤ 5

instance (state : RuntimeState) (draws : OrderDraws) : Decidable (draws.Drawn state) :=
  decidable_of_iff
    (draws.user ∈ state.users ∧
      (draws.lines.map fun line ↦ line.variant).Subperm state.variants ∧
      (draws.lines ≠ [] ∧ draws.lines.length ≤ 4 ∧
        (∀ line ∈ draws.lines, 1 ≤ line.quantity ∧ line.quantity ≤ 3) ∧
        ∀ line ∈ draws.lines, line.discountPercent ∈ ([0, 3, 5] : List ℤ)) ∧
      (draws.shippingUnits ∈ ([0, 20000, 35000, 50000] : List ℤ) ∧
        draws.discountUnits ∈ ([0, 20000, 50000, 80000] : List ℤ)) ∧
      (state.voucherIds ≠ [] → draws.voucherId ∈ state.voucherIds) ∧
      (1 ≤ draws.paidMinutes ∧ draws.paidMinutes ≤ 60) ∧
      ∀ days ∈ draws.deliveryDays, 1 ≤ days ∧ days ≤ 5)
    ⟨fun ⟨huser, hvariants, ⟨hne, hle, hquantity, hpercent⟩, ⟨hshipping, hdiscount⟩, hvoucher,
        hminutes, hdays⟩ ↦
      ⟨huser, hvariants, hne, hle, hquantity, hpercent, hshipping, hdiscount, hvoucher, hminutes,
        hdays⟩,
    fun h ↦ ⟨h.user, h.variants, ⟨h.lines_ne, h.lines_le, h.quantity, h.discountPercent⟩,
      ⟨h.shippingUnits, h.discountUnits⟩, h.voucherId, h.paidMinutes, h.deliveryDays⟩⟩

namespace LineDraw

variable (line : LineDraw)

/-- `line_total`. -/
def lineTotal : ℤ :=
  line.quantity * line.variant.unitPrice

/-- `line_tax`. -/
def lineTax : ℤ :=
  percentOf 8 line.lineTotal

/-- `line_discount`. -/
def lineDiscount : ℤ :=
  percentOf line.discountPercent line.lineTotal

end LineDraw

namespace OrderDraws

variable (draws : OrderDraws)

/-- `subtotal`. -/
def subtotal : ℤ :=
  (draws.lines.map LineDraw.lineTotal).sum

/-- `tax_total`. -/
def taxTotal : ℤ :=
  (draws.lines.map LineDraw.lineTax).sum

/-- `line_discount_total`. -/
def lineDiscountTotal : ℤ :=
  (draws.lines.map LineDraw.lineDiscount).sum

/-- `shipping`. -/
def shipping : ℤ :=
  money draws.shippingUnits

/-- `order_level_discount`. -/
def orderLevelDiscount : ℤ :=
  min (money draws.discountUnits)
    (draws.subtotal + draws.shipping + draws.taxTotal - draws.lineDiscountTotal)

/-- `total_discount`. -/
def totalDiscount : ℤ :=
  draws.lineDiscountTotal + draws.orderLevelDiscount

/-- `total`. -/
def total : ℤ :=
  draws.subtotal + draws.shipping + draws.taxTotal - draws.totalDiscount

/-- `order_status`. -/
def orderStatus : OrderStatus :=
  if draws.paymentStatus = .paid then .confirmed else .pendingPayment

end OrderDraws

/-- `timedelta(minutes=1)`. -/
def minute : Timestamp := 60000000

/-- `timedelta(days=1)`. -/
def day : Timestamp := 86400000000

section InsertOrder

variable (render : Rendering) (state : RuntimeState) (draws : OrderDraws) (orderNumber : Text)
  (createdAt : Timestamp)

/-- The row of `orders`; the database generates `total_amount`. -/
def orderRow : Order where
  key := draws.orderId
  createdAt := createdAt
  payload := {
    publicOrderId := some draws.publicOrderId
    customerId := some draws.user.userId
    orderNumber := some orderNumber
    orderStatus := some draws.orderStatus.text
    paymentStatus := some draws.paymentStatus.text
    shippingAddressId := some draws.user.addressId
    billingAddressId := some draws.user.addressId
    shippingAddressSnapshot := some draws.user.addressSnapshot
    billingAddressSnapshot := some draws.user.addressSnapshot
    subtotalAmount := some draws.subtotal
    shippingAmount := some draws.shipping
    taxAmount := some draws.taxTotal
    discountAmount := some draws.totalDiscount
    totalAmount := some (draws.subtotal + draws.shipping + draws.taxTotal - draws.totalDiscount)
    currency := some "VND".toList
    updatedAt := some createdAt }

/-- A row of `order_items`; the database generates the last two amounts. -/
def itemRow (orderId : ℤ) (line : LineDraw) : OrderItem where
  key := line.orderItemId
  createdAt := createdAt
  payload := {
    orderId := orderId
    shopId := some line.variant.shopId
    productId := some line.variant.productId
    productVariantId := some line.variant.productVariantId
    productNameSnapshot := some line.variant.productName
    productSkuSnapshot := some line.variant.productSku
    variantNameSnapshot := some line.variant.variantName
    variantSkuSnapshot := some line.variant.variantSku
    variantOptionsSnapshot := some (render.tierJson line.variant.variantName)
    quantity := some line.quantity
    unitPrice := some line.variant.unitPrice
    currency := some "VND".toList
    taxAmount := some line.lineTax
    discountAmount := some line.lineDiscount
    itemSubtotal := some (line.quantity * line.variant.unitPrice)
    itemTotal := some (line.quantity * line.variant.unitPrice + line.lineTax - line.lineDiscount)
    updatedAt := some createdAt }

/-- The row of `order_vouchers`, if there is one. -/
def orderVoucherRows : List OrderVoucher :=
  if 0 < draws.orderLevelDiscount ∧ state.voucherIds ≠ [] then
    [{ key := draws.orderVoucherId
       createdAt := createdAt
       payload := {
         orderId := draws.orderId
         voucherId := some draws.voucherId
         discountAmount := some draws.orderLevelDiscount
         updatedAt := some createdAt } }]
  else []

/-- The row of `_insert_payment`. -/
def paymentRow : Payment where
  key := draws.paymentId
  createdAt := createdAt
  payload := {
    publicPaymentId := some draws.publicPaymentId
    orderId := draws.orderId
    paymentMethod := some draws.paymentMethod
    paymentStatus := some draws.paymentStatus.text
    amount := some draws.total
    currency := some "VND".toList
    paidAt :=
      if draws.paymentStatus = .paid then some (createdAt + draws.paidMinutes * minute) else none
    updatedAt := some createdAt }

/-- `shipped_at` of `_insert_shipment`. -/
def shippedAt : Option Timestamp :=
  if draws.paymentStatus = .paid then some (createdAt + day) else none

/-- `delivered_at`. -/
def deliveredAt : Option Timestamp :=
  (shippedAt draws createdAt).bind fun shipped ↦ draws.deliveryDays.map fun days ↦
    shipped + days * day

/-- The row of `_insert_shipment`. -/
def shipmentRow : Shipment where
  key := draws.shipmentId
  createdAt := createdAt
  payload := {
    publicShipmentId := some draws.publicShipmentId
    orderId := draws.orderId
    shipmentStatus := some <| ShipmentStatus.text <|
      if (deliveredAt draws createdAt).isSome then .delivered
      else if (shippedAt draws createdAt).isSome then .inTransit
      else .pending
    carrier := some draws.carrier
    trackingNumber := (shippedAt draws createdAt).map fun _ ↦ "TRK-".toList ++ orderNumber
    shippedAt := shippedAt draws createdAt
    deliveredAt := deliveredAt draws createdAt
    updatedAt := some createdAt }

/-- `insert_order`. An order is not older than its customer. -/
def insertOrder (db : OltpDatabase) : Except OltpError OltpDatabase := do
  let createdAt := max createdAt draws.user.createdAt
  let orders ← insertRow (fun row : Order ↦ row.key) db.checkOrder (.duplicateKey .orders) db.orders
    (orderRow draws orderNumber createdAt)
  let db := { db with orders := orders }
  let orderItems ← insertRows (fun row : OrderItem ↦ row.key) db.checkOrderItem
    (.duplicateKey .orderItems) db.orderItems
    (draws.lines.map (itemRow render createdAt draws.orderId))
  let db := { db with orderItems := orderItems }
  let orderVouchers ← insertRows (fun row : OrderVoucher ↦ row.key) db.checkOrderVoucher
    (.duplicateKey .orderVouchers) db.orderVouchers (orderVoucherRows state draws createdAt)
  let db := { db with orderVouchers := orderVouchers }
  let payments ← insertRow (fun row : Payment ↦ row.key) db.checkPayment (.duplicateKey .payments)
    db.payments (paymentRow draws createdAt)
  let db := { db with payments := payments }
  let shipments ← insertRow (fun row : Shipment ↦ row.key) db.checkShipment
    (.duplicateKey .shipments) db.shipments (shipmentRow draws orderNumber createdAt)
  return { db with shipments := shipments }

end InsertOrder

end LakehousePipeline.Generator
