import LakehousePipeline.Spark

/-!
# Table contracts

The business columns of the Silver tables (`SILVER_TABLES`), one structure per table, without the
primary key and `created_at`, which every table has. The source declares `created_at` and the
foreign keys to the order `NOT NULL`, and every change event carries the whole row, so these are not
nullable; all other columns are.

Money is in cents, weights in grams and timestamps in microseconds. `BusinessRow` is what a reader
of a Silver table computes with: the row without its ingestion metadata.
-/

namespace LakehousePipeline

/-- The source tables with a Silver contract. -/
inductive SilverTable
  | appUsers
  | userAddresses
  | shops
  | categories
  | products
  | productVariants
  | vouchers
  | orders
  | orderItems
  | orderVouchers
  | payments
  | shipments
  deriving DecidableEq, Repr

/-- The Gold tables. -/
inductive GoldTable
  | dimCustomer
  | dimDate
  | dimTime
  | dimLocation
  | dimShop
  | dimCategory
  | dimProduct
  | dimPromotion
  | dimPayment
  | dimShipping
  | factSales
  deriving DecidableEq, Repr

/-- `SILVER_TABLES`. -/
def silverTables : List SilverTable :=
  [.appUsers, .userAddresses, .shops, .categories, .products, .productVariants, .vouchers, .orders,
    .orderItems, .orderVouchers, .payments, .shipments]

/-- `GOLD_TABLES`. -/
def goldTables : List GoldTable :=
  [.dimCustomer, .dimDate, .dimTime, .dimLocation, .dimShop, .dimCategory, .dimProduct,
    .dimPromotion, .dimPayment, .dimShipping, .factSales]

theorem mem_silverTables (t : SilverTable) : t ∈ silverTables := by
  cases t <;> decide

theorem mem_goldTables (t : GoldTable) : t ∈ goldTables := by
  cases t <;> decide

/-- A visible row of a Silver table: primary key, `created_at` and the other business columns. -/
structure BusinessRow (K P : Type) where
  /-- The primary key. -/
  key : K
  /-- `created_at`. -/
  createdAt : Timestamp
  /-- The other columns. -/
  payload : P
  deriving DecidableEq

/-! ### Customers -/

/-- Columns of `app_users`. -/
structure UserColumns where
  publicUserId : Option Text
  username : Option Text
  email : Option Text
  firstName : Option Text
  lastName : Option Text
  phoneNumber : Option Text
  status : Option Text
  updatedAt : Option Timestamp
  lastLogin : Option Timestamp
  deriving DecidableEq

/-- The columns both `user_addresses` and the address snapshots have (`ADDRESS_FIELDS`). -/
structure AddressFields where
  addressType : Option Text
  recipientName : Option Text
  phoneNumber : Option Text
  street : Option Text
  ward : Option Text
  district : Option Text
  city : Option Text
  state : Option Text
  postalCode : Option Text
  country : Option Text
  deriving DecidableEq

/-- Columns of `user_addresses`. -/
structure AddressColumns where
  userId : Option ℤ
  fields : AddressFields
  updatedAt : Option Timestamp
  deriving DecidableEq

/-! ### Catalog -/

/-- Columns of `shops`. -/
structure ShopColumns where
  publicShopId : Option Text
  shopName : Option Text
  shopSlug : Option Text
  status : Option Text
  updatedAt : Option Timestamp
  deriving DecidableEq

/-- Columns of `categories`. -/
structure CategoryColumns where
  parentCategoryId : Option ℤ
  categoryName : Option Text
  slug : Option Text
  isActive : Option Bool
  updatedAt : Option Timestamp
  deriving DecidableEq

/-- Columns of `products`. -/
structure ProductColumns where
  publicProductId : Option Text
  shopId : Option ℤ
  categoryId : Option ℤ
  productSku : Option Text
  productSlug : Option Text
  productName : Option Text
  brand : Option Text
  attributesJson : Option Text
  imagesJson : Option Text
  status : Option Text
  isFeatured : Option Bool
  updatedAt : Option Timestamp
  deriving DecidableEq

/-- Columns of `product_variants`. -/
structure VariantColumns where
  publicVariantId : Option Text
  productId : Option ℤ
  variantSku : Option Text
  variantName : Option Text
  optionsJson : Option Text
  unitPrice : Option ℤ
  compareAtPrice : Option ℤ
  currency : Option Text
  stockQuantity : Option ℤ
  reservedQuantity : Option ℤ
  weightKg : Option ℤ
  imagesJson : Option Text
  status : Option Text
  isDefault : Option Bool
  updatedAt : Option Timestamp
  deriving DecidableEq

/-! ### Sales -/

/-- Columns of `vouchers`. -/
structure VoucherColumns where
  voucherCode : Option Text
  voucherName : Option Text
  shopId : Option ℤ
  discountType : Option Text
  discountValue : Option ℤ
  maxDiscountAmount : Option ℤ
  minimumOrderAmount : Option ℤ
  scopeJson : Option Text
  startsAt : Option Timestamp
  endsAt : Option Timestamp
  isActive : Option Bool
  updatedAt : Option Timestamp
  deriving DecidableEq

/-- Columns of `orders`. -/
structure OrderColumns where
  publicOrderId : Option Text
  customerId : Option ℤ
  orderNumber : Option Text
  orderStatus : Option Text
  paymentStatus : Option Text
  shippingAddressId : Option ℤ
  billingAddressId : Option ℤ
  shippingAddressSnapshot : Option Text
  billingAddressSnapshot : Option Text
  subtotalAmount : Option ℤ
  shippingAmount : Option ℤ
  taxAmount : Option ℤ
  discountAmount : Option ℤ
  totalAmount : Option ℤ
  currency : Option Text
  updatedAt : Option Timestamp
  deriving DecidableEq

/-- Columns of `order_items`. -/
structure OrderItemColumns where
  orderId : ℤ
  shopId : Option ℤ
  productId : Option ℤ
  productVariantId : Option ℤ
  productNameSnapshot : Option Text
  productSkuSnapshot : Option Text
  variantNameSnapshot : Option Text
  variantSkuSnapshot : Option Text
  variantOptionsSnapshot : Option Text
  quantity : Option ℤ
  unitPrice : Option ℤ
  currency : Option Text
  taxAmount : Option ℤ
  discountAmount : Option ℤ
  itemSubtotal : Option ℤ
  itemTotal : Option ℤ
  updatedAt : Option Timestamp
  deriving DecidableEq

/-- Columns of `order_vouchers`. -/
structure OrderVoucherColumns where
  orderId : ℤ
  voucherId : Option ℤ
  discountAmount : Option ℤ
  updatedAt : Option Timestamp
  deriving DecidableEq

/-- Columns of `payments`. -/
structure PaymentColumns where
  publicPaymentId : Option Text
  orderId : ℤ
  paymentMethod : Option Text
  paymentStatus : Option Text
  amount : Option ℤ
  currency : Option Text
  paidAt : Option Timestamp
  updatedAt : Option Timestamp
  deriving DecidableEq

/-- Columns of `shipments`. -/
structure ShipmentColumns where
  publicShipmentId : Option Text
  orderId : ℤ
  shipmentStatus : Option Text
  carrier : Option Text
  trackingNumber : Option Text
  shippedAt : Option Timestamp
  deliveredAt : Option Timestamp
  updatedAt : Option Timestamp
  deriving DecidableEq

/-- A user. -/
abbrev User := BusinessRow ℤ UserColumns
/-- An address. -/
abbrev Address := BusinessRow ℤ AddressColumns
/-- A voucher. -/
abbrev Voucher := BusinessRow ℤ VoucherColumns
/-- An order header. -/
abbrev Order := BusinessRow ℤ OrderColumns
/-- An order item. -/
abbrev OrderItem := BusinessRow ℤ OrderItemColumns
/-- The use of a voucher by an order. -/
abbrev OrderVoucher := BusinessRow ℤ OrderVoucherColumns
/-- A payment. -/
abbrev Payment := BusinessRow ℤ PaymentColumns
/-- A shipment. -/
abbrev Shipment := BusinessRow ℤ ShipmentColumns

end LakehousePipeline
