import LakehousePipeline.Gold.AmountBounds
import LakehousePipeline.Library.KeyedTables
import LakehousePipeline.Silver.Lake
import Mathlib.Data.List.ReduceOption

/-!
# The source database

The tables of the OLTP schema that are ingested, as the data generator sees them, with the
constraints on their columns: primary keys, unique public ids, order numbers, voucher codes and
tracking numbers, `CHECK`s on amounts and times, foreign keys, and the ranges of numbers. A
statement that violates one is refused, and its transaction with it. A price that is drawn up some
hundred times comes to the end of `DECIMAL(12,2)`, so the ranges do stop the generator.

## What is left out

* The lengths and spelling of texts, so order numbers, names of shops and codes of vouchers never
  get too long here.
* Unique names, slugs and SKUs, which the generator does not write once the baseline is there.
* The constraints on columns that are not ingested, and the tables for carts, returns, refunds and
  reviews, to which nothing here refers.

So there are more runs here than there: what holds after every run here holds after every run there.
-/

namespace LakehousePipeline.Generator

open Checks KeyedTables

/-- The ingested tables. -/
structure OltpDatabase where
  appUsers : List User
  userAddresses : List Address
  shops : List (BusinessRow ℤ ShopColumns)
  categories : List (BusinessRow ℤ CategoryColumns)
  products : List (BusinessRow ℤ ProductColumns)
  productVariants : List (BusinessRow ℤ VariantColumns)
  vouchers : List Voucher
  orders : List Order
  orderItems : List OrderItem
  orderVouchers : List OrderVoucher
  payments : List Payment
  shipments : List Shipment

/-- The rows of each table. -/
def OltpDatabase.rows (db : OltpDatabase) :
    (t : SilverTable) → List (BusinessRow ℤ (SilverColumns t))
  | .appUsers => db.appUsers
  | .userAddresses => db.userAddresses
  | .shops => db.shops
  | .categories => db.categories
  | .products => db.products
  | .productVariants => db.productVariants
  | .vouchers => db.vouchers
  | .orders => db.orders
  | .orderItems => db.orderItems
  | .orderVouchers => db.orderVouchers
  | .payments => db.payments
  | .shipments => db.shipments

/-- What stops a transaction. -/
inductive OltpError
  /-- The primary key of a table. -/
  | duplicateKey (t : SilverTable)
  /-- The public id of a table. -/
  | duplicatePublicId (t : SilverTable)
  /-- `numeric field overflow` and `integer out of range`. -/
  | outOfRange (t : SilverTable)
  /-- `orders_order_number_key`. -/
  | duplicateOrderNumber
  /-- `vouchers_voucher_code_key`. -/
  | duplicateVoucherCode
  /-- `order_vouchers_order_id_voucher_id_key`. -/
  | duplicateOrderVoucher
  /-- `uq_shipments_tracking_number`. -/
  | duplicateTrackingNumber
  /-- The `CHECK`s on the amounts of a table. -/
  | amounts (t : SilverTable)
  /-- `chk_shipment_time_order`. -/
  | shipmentTimeOrder
  /-- A foreign key of a table. -/
  | foreignKey (t : SilverTable)
  /-- `Run bootstrap first before continuous generation.` -/
  | notBootstrapped
  /-- The checks of `RuntimeState` and `Variant`. -/
  | invalidState
  /-- `No categories available for continuous generation`. -/
  | noCategories
  deriving DecidableEq

/-! ### Rows that fit their table -/

/-- An amount of type `DECIMAL(12,2)` has ten digits before the point: it is less than that many
cents. -/
def decimalLimit : ℤ :=
  10 ^ 12

/-- A number of type `INTEGER` has four bytes. -/
def integerLimit : ℤ :=
  2 ^ 31

/-- The columns of numbers that are written, each with the limit of its type. -/
def numbersOf : (t : SilverTable) → SilverColumns t → List (ℤ × Option ℤ)
  | .productVariants, c => [(decimalLimit, c.unitPrice), (decimalLimit, c.compareAtPrice),
      (integerLimit, c.stockQuantity)]
  | .vouchers, c => [(decimalLimit, c.discountValue), (decimalLimit, c.maxDiscountAmount),
      (decimalLimit, c.minimumOrderAmount)]
  | .orders, c => [(decimalLimit, c.subtotalAmount), (decimalLimit, c.shippingAmount),
      (decimalLimit, c.taxAmount), (decimalLimit, c.discountAmount), (decimalLimit, c.totalAmount)]
  | .orderItems, c => [(integerLimit, c.quantity), (decimalLimit, c.unitPrice),
      (decimalLimit, c.taxAmount), (decimalLimit, c.discountAmount), (decimalLimit, c.itemSubtotal),
      (decimalLimit, c.itemTotal)]
  | .orderVouchers, c => [(decimalLimit, c.discountAmount)]
  | .payments, c => [(decimalLimit, c.amount)]
  | _, _ => []

/-- **The numbers of a row are in the ranges of their columns.** From below the `CHECK`s keep
them. -/
def InRange (t : SilverTable) (c : SilverColumns t) : Prop :=
  ∀ column ∈ numbersOf t c, ∀ n ∈ column.2, n < column.1

instance (t : SilverTable) (c : SilverColumns t) : Decidable (InRange t c) :=
  inferInstanceAs (Decidable (∀ column ∈ numbersOf t c, ∀ n ∈ column.2, n < column.1))

/-- The public id of a row, in a table that has one. -/
def publicIdOf : (t : SilverTable) → SilverColumns t → Option Text
  | .appUsers, c => c.publicUserId
  | .shops, c => c.publicShopId
  | .products, c => c.publicProductId
  | .productVariants, c => c.publicVariantId
  | .orders, c => c.publicOrderId
  | .payments, c => c.publicPaymentId
  | .shipments, c => c.publicShipmentId
  | _, _ => none

section Fits

variable {t : SilverTable} {rows rows' added : List (BusinessRow ℤ (SilverColumns t))}
  {row : BusinessRow ℤ (SilverColumns t)}

/-- The public ids of a table. -/
def publicIds (rows : List (BusinessRow ℤ (SilverColumns t))) : List Text :=
  (rows.map fun row ↦ publicIdOf t row.payload).reduceOption

/-- **The rows fit their table**: keys and public ids are unique, and numbers are in range. -/
structure TableFits (rows : List (BusinessRow ℤ (SilverColumns t))) : Prop where
  keys : (rows.map fun row ↦ row.key).Nodup
  publicIds : (publicIds rows).Nodup
  inRange : ∀ row ∈ rows, InRange t row.payload

/-- A row of a new key fits too: its public id is new, and its numbers are in range. -/
structure RowFits (rows : List (BusinessRow ℤ (SilverColumns t)))
    (row : BusinessRow ℤ (SilverColumns t)) : Prop where
  inRange : InRange t row.payload
  publicId : ∀ id ∈ publicIdOf t row.payload, id ∉ publicIds rows

instance : Decidable (TableFits rows) :=
  decidable_of_iff ((rows.map fun row ↦ row.key).Nodup ∧ (publicIds rows).Nodup ∧
      ∀ row ∈ rows, InRange t row.payload)
    ⟨fun h ↦ ⟨h.1, h.2.1, h.2.2⟩, fun h ↦ ⟨h.keys, h.publicIds, h.inRange⟩⟩

/-- Fewer rows fit as well. -/
theorem TableFits.sublist (h : TableFits rows) (hsub : rows'.Sublist rows) : TableFits rows' where
  keys := h.keys.sublist (hsub.map _)
  publicIds := h.publicIds.sublist ((hsub.map _).filterMap _)
  inRange row hrow := h.inRange row (hsub.subset hrow)

/-- Rows fit after an update that leaves keys and public ids and keeps numbers in range. -/
theorem TableFits.updateWhere
    {p : BusinessRow ℤ (SilverColumns t) → Bool}
    {f : BusinessRow ℤ (SilverColumns t) → BusinessRow ℤ (SilverColumns t)} (h : TableFits rows)
    (hkey : ∀ row, (f row).key = row.key)
    (hid : ∀ row, publicIdOf t (f row).payload = publicIdOf t row.payload)
    (hrange : ∀ row ∈ rows, p row = true → InRange t row.payload → InRange t (f row).payload) :
    TableFits (updateWhere p f rows) where
  keys := by
    rw [map_updateWhere hkey]
    exact h.keys
  publicIds := by
    rw [Generator.publicIds, map_updateWhere hid]
    exact h.publicIds
  inRange := forall_mem_updateWhere h.inRange hrange

/-- One more row fits if its key is new and it fits itself. -/
theorem tableFits_append_singleton : TableFits (rows ++ [row]) ↔
    TableFits rows ∧ row.key ∉ rows.map (fun old ↦ old.key) ∧ RowFits rows row := by
  have hids : (publicIds (rows ++ [row])).Nodup ↔
      (publicIds rows).Nodup ∧ ∀ id ∈ publicIdOf t row.payload, id ∉ publicIds rows := by
    have happend : publicIds (rows ++ [row]) =
        publicIds rows ++ (publicIdOf t row.payload).toList := by
      rw [publicIds, List.map_append, List.reduceOption_append, List.map_singleton,
        List.reduceOption_singleton]
      rfl
    rw [happend]
    cases publicIdOf t row.payload with
    | none => simp
    | some id =>
      rw [Option.toList_some, List.nodup_append_comm, List.singleton_append, List.nodup_cons,
        and_comm]
      simp
  constructor
  · rintro ⟨hkeys, hpublic, hrange⟩
    obtain ⟨hold, hnew⟩ := nodup_map_append_singleton.1 hkeys
    obtain ⟨holdIds, hnewId⟩ := hids.1 hpublic
    obtain ⟨holdRange, hnewRange⟩ := List.forall_mem_append.1 hrange
    exact ⟨⟨hold, holdIds, holdRange⟩, hnew, hnewRange row (List.mem_singleton_self row), hnewId⟩
  · rintro ⟨⟨hold, holdIds, holdRange⟩, hnew, hnewRange, hnewId⟩
    exact ⟨nodup_map_append_singleton.2 ⟨hold, hnew⟩, hids.2 ⟨holdIds, hnewId⟩,
      List.forall_mem_append.2 ⟨holdRange, List.forall_mem_singleton.2 hnewRange⟩⟩

/-- More rows of a table without public ids. -/
theorem tableFits_append (hnone : ∀ c : SilverColumns t, publicIdOf t c = none)
    (h : TableFits rows) : TableFits (rows ++ added) ↔
      ((rows ++ added).map fun row ↦ row.key).Nodup ∧ ∀ row ∈ added, InRange t row.payload := by
  constructor
  · exact fun hfits ↦ ⟨hfits.keys, (List.forall_mem_append.1 hfits.inRange).2⟩
  · rintro ⟨hkeys, hrange⟩
    refine ⟨hkeys, ?_, List.forall_mem_append.2 ⟨h.inRange, hrange⟩⟩
    have hempty : publicIds (rows ++ added) = [] := by
      simp [publicIds, hnone, List.reduceOption_replicate_none]
    rw [hempty]
    exact List.nodup_nil

end Fits

/-! ### Constraints -/

instance (c : OrderItemColumns) : Decidable c.Checks :=
  decidable_of_iff (0 < c.quantity.getD 0 ∧ 0 ≤ c.unitPrice.getD 0 ∧ 0 ≤ c.tax ∧ 0 ≤ c.discount ∧
      c.discount ≤ c.gross + c.tax)
    ⟨fun h ↦ ⟨h.1, h.2.1, h.2.2.1, h.2.2.2.1, h.2.2.2.2⟩, fun h ↦ ⟨h.1, h.2, h.3, h.4, h.5⟩⟩

instance (c : OrderColumns) : Decidable c.Checks :=
  decidable_of_iff (0 ≤ c.subtotalAmount.getD 0 ∧ 0 ≤ c.shippingAmount.getD 0 ∧
      0 ≤ c.taxAmount.getD 0 ∧ 0 ≤ c.discountAmount.getD 0 ∧ c.discountAmount.getD 0 ≤
        c.subtotalAmount.getD 0 + c.shippingAmount.getD 0 + c.taxAmount.getD 0)
    ⟨fun h ↦ ⟨h.1, h.2.1, h.2.2.1, h.2.2.2.1, h.2.2.2.2⟩, fun h ↦ ⟨h.1, h.2, h.3, h.4, h.5⟩⟩

/-- `chk_shipment_time_order`. -/
def TimeOrder (c : ShipmentColumns) : Prop :=
  ∀ shipped ∈ c.shippedAt, ∀ delivered ∈ c.deliveredAt, shipped ≤ delivered

instance (c : ShipmentColumns) : Decidable (TimeOrder c) :=
  inferInstanceAs (Decidable (∀ shipped ∈ c.shippedAt, ∀ delivered ∈ c.deliveredAt, _ ≤ _))

/-- The `CHECK`s of a variant. -/
structure VariantChecks (c : VariantColumns) : Prop where
  unitPrice : 0 ≤ c.unitPrice.getD 0
  compareAtPrice : ∀ price ∈ c.compareAtPrice, c.unitPrice.getD 0 ≤ price
  stockQuantity : 0 ≤ c.stockQuantity.getD 0

instance (c : VariantColumns) : Decidable (VariantChecks c) :=
  decidable_of_iff (0 ≤ c.unitPrice.getD 0 ∧
      (∀ price ∈ c.compareAtPrice, c.unitPrice.getD 0 ≤ price) ∧ 0 ≤ c.stockQuantity.getD 0)
    ⟨fun h ↦ ⟨h.1, h.2.1, h.2.2⟩, fun h ↦ ⟨h.unitPrice, h.compareAtPrice, h.stockQuantity⟩⟩

namespace OltpDatabase

variable (db : OltpDatabase)

/-- **The rows fit the schema**: those of each table fit it, and order numbers are unique. -/
structure FitsSchema : Prop where
  tables : ∀ t, TableFits (db.rows t)
  orderNumbers : (db.orders.map fun order ↦ order.payload.orderNumber).Nodup

instance : Decidable db.FitsSchema :=
  decidable_of_iff ((∀ t ∈ silverTables, TableFits (db.rows t)) ∧
      (db.orders.map fun order ↦ order.payload.orderNumber).Nodup)
    ⟨fun h ↦ ⟨fun t ↦ h.1 t (mem_silverTables t), h.2⟩,
      fun h ↦ ⟨fun t _ ↦ h.tables t, h.orderNumbers⟩⟩

variable {db} in
theorem FitsSchema.keys (h : db.FitsSchema) (t : SilverTable) :
    ((db.rows t).map fun row ↦ row.key).Nodup :=
  (h.tables t).keys

/-- A foreign key of an order: its address is one of its customer. -/
def HasAddress (customerId addressId : Option ℤ) : Prop :=
  ∃ address ∈ db.userAddresses, some address.key = addressId ∧ address.payload.userId = customerId

/-- The foreign keys of an item to the catalog. -/
structure HasProduct (item : OrderItemColumns) : Prop where
  shop : ∃ shop ∈ db.shops, some shop.key = item.shopId
  product : ∃ product ∈ db.products, some product.key = item.productId ∧
    product.payload.shopId = item.shopId
  variant : ∃ variant ∈ db.productVariants, some variant.key = item.productVariantId ∧
    variant.payload.productId = item.productId

instance (customerId addressId : Option ℤ) : Decidable (db.HasAddress customerId addressId) :=
  inferInstanceAs (Decidable (∃ address ∈ db.userAddresses, _ ∧ _))

instance (item : OrderItemColumns) : Decidable (db.HasProduct item) :=
  decidable_of_iff
    ((∃ shop ∈ db.shops, some shop.key = item.shopId) ∧
      (∃ product ∈ db.products, some product.key = item.productId ∧
        product.payload.shopId = item.shopId) ∧
      ∃ variant ∈ db.productVariants, some variant.key = item.productVariantId ∧
        variant.payload.productId = item.productId)
    ⟨fun h ↦ ⟨h.1, h.2.1, h.2.2⟩, fun h ↦ ⟨h.shop, h.product, h.variant⟩⟩

/-- The ranges of the columns of a row, and its public id. -/
def checkColumns (t : SilverTable) (row : BusinessRow ℤ (SilverColumns t)) :
    Except OltpError Unit := do
  ensure (InRange t row.payload) (.outOfRange t)
  ensure (∀ id ∈ publicIdOf t row.payload, id ∉ publicIds (db.rows t)) (.duplicatePublicId t)

/-- The constraints on a row of `orders`. -/
def checkOrder (order : Order) : Except OltpError Unit := do
  db.checkColumns .orders order
  ensure order.payload.Checks (.amounts .orders)
  ensure (order.payload.orderNumber ∉ db.orders.map fun old ↦ old.payload.orderNumber)
    .duplicateOrderNumber
  ensure ((∃ user ∈ db.appUsers, some user.key = order.payload.customerId) ∧
    db.HasAddress order.payload.customerId order.payload.shippingAddressId ∧
    db.HasAddress order.payload.customerId order.payload.billingAddressId) (.foreignKey .orders)

/-- The foreign key to `orders`. -/
def checkOrderId (t : SilverTable) (orderId : ℤ) : Except OltpError Unit :=
  ensure (orderId ∈ db.orders.map fun order ↦ order.key) (.foreignKey t)

/-- The constraints on a row of `order_items`. -/
def checkOrderItem (item : OrderItem) : Except OltpError Unit := do
  db.checkColumns .orderItems item
  ensure item.payload.Checks (.amounts .orderItems)
  db.checkOrderId .orderItems item.payload.orderId
  ensure (db.HasProduct item.payload) (.foreignKey .orderItems)

/-- The constraints on a row of `order_vouchers`. -/
def checkOrderVoucher (use : OrderVoucher) : Except OltpError Unit := do
  db.checkColumns .orderVouchers use
  ensure (0 ≤ use.payload.discountAmount.getD 0) (.amounts .orderVouchers)
  ensure (∀ old ∈ db.orderVouchers, ¬(old.payload.orderId = use.payload.orderId ∧
    old.payload.voucherId = use.payload.voucherId)) .duplicateOrderVoucher
  db.checkOrderId .orderVouchers use.payload.orderId
  ensure (∃ voucher ∈ db.vouchers, some voucher.key = use.payload.voucherId)
    (.foreignKey .orderVouchers)

/-- The constraints on a row of `payments`. -/
def checkPayment (payment : Payment) : Except OltpError Unit := do
  db.checkColumns .payments payment
  ensure (0 ≤ payment.payload.amount.getD 0) (.amounts .payments)
  db.checkOrderId .payments payment.payload.orderId

/-- The constraints on a row of `shipments`. -/
def checkShipment (shipment : Shipment) : Except OltpError Unit := do
  db.checkColumns .shipments shipment
  ensure (TimeOrder shipment.payload) .shipmentTimeOrder
  ensure (shipment.payload.trackingNumber = none ∨ ∀ old ∈ db.shipments,
    ¬(old.payload.carrier = shipment.payload.carrier ∧
      old.payload.trackingNumber = shipment.payload.trackingNumber)) .duplicateTrackingNumber
  db.checkOrderId .shipments shipment.payload.orderId

/-- The constraints on a row of `vouchers`; a percentage is written with two decimals as well. -/
def checkVoucher (voucher : Voucher) : Except OltpError Unit := do
  db.checkColumns .vouchers voucher
  ensure (0 ≤ voucher.payload.discountValue.getD 0 ∧
    0 ≤ voucher.payload.maxDiscountAmount.getD 0 ∧
    0 ≤ voucher.payload.minimumOrderAmount.getD 0 ∧
    (∀ starts ∈ voucher.payload.startsAt, ∀ ends ∈ voucher.payload.endsAt, starts < ends) ∧
    (voucher.payload.discountType = some "fixed".toList ∨
      voucher.payload.discountType = some "percent".toList ∧
        voucher.payload.discountValue.getD 0 ≤ 10000)) (.amounts .vouchers)
  ensure (voucher.payload.voucherCode ∉ db.vouchers.map fun old ↦ old.payload.voucherCode)
    .duplicateVoucherCode

end OltpDatabase

end LakehousePipeline.Generator
