import LakehousePipeline.Gold.FactSales
import LakehousePipeline.Silver.Lake

/-!
# What an incremental Gold run looks at

An incremental run reads the change data feeds of the Silver tables since the last release, drops
the tables whose feed moves ingestion metadata only, and derives from the rest which orders,
products and so on it has to rebuild. The ids are taken from all images in the feed, so a row that
was deleted or moved to another order counts with its old columns too.
-/

namespace LakehousePipeline

/-- The changed tables with their feeds. -/
abbrev SilverChanges := (t : SilverTable) → Option (List (ChangeRow (SilverColumns t)))

/-- `sha2(to_json(struct(business columns, _is_deleted)))`, table by table. -/
abbrev BusinessHash := (t : SilverTable) → BusinessRow ℤ (SilverColumns t) → Bool → Text

/-! ### Substantive changes -/

section Substantive

variable {P : Type}

/-- A feed with an insert, a delete, or two images of one key that differ in the business
columns. -/
def isSubstantive (hash : BusinessRow ℤ P → Bool → Text) (feed : List (ChangeRow P)) : Bool :=
  feed.any (fun c ↦ c.changeType = .insert ∨ c.changeType = .delete) ||
    feed.any fun c ↦ 1 < ((feed.filter fun d ↦ d.row.key = c.row.key).map fun d ↦
      hash d.row.business d.row.isDeleted).dedup.length

end Substantive

/-- `_substantive_changes`. -/
def substantiveChanges (hash : BusinessHash) (changes : SilverChanges) : SilverChanges :=
  fun t ↦ (changes t).filter (isSubstantive (hash t))

/-! ### Affected ids -/

/-- A column of all images in the feed of a table; nothing when the table is not changed. -/
def changedIds (changes : SilverChanges) (t : SilverTable)
    (column : SilverRow ℤ (SilverColumns t) → Option ℤ) : List ℤ :=
  ((changes t).getD []).filterMap fun c ↦ column c.row

/-- The keys in the feed of a table. -/
def changedKeys (changes : SilverChanges) (t : SilverTable) : List ℤ :=
  changedIds changes t fun row ↦ some row.key

/-- `_affected_order_ids`. -/
def affectedOrderIds (changes : SilverChanges) (orderVouchers : List OrderVoucher) : List ℤ :=
  let voucherIds := changedKeys changes .vouchers
  changedKeys changes .orders ++
    changedIds changes .orderItems (fun row ↦ some row.payload.orderId) ++
    changedIds changes .orderVouchers (fun row ↦ some row.payload.orderId) ++
    changedIds changes .payments (fun row ↦ some row.payload.orderId) ++
    changedIds changes .shipments (fun row ↦ some row.payload.orderId) ++
    (orderVouchers.filter fun use ↦ use.payload.voucherId.any (· ∈ voucherIds)).map
      (fun use ↦ use.payload.orderId) ++
    changedIds changes .orderVouchers fun row ↦
      if row.payload.voucherId.any (· ∈ voucherIds) then some row.payload.orderId else none

/-- `_affected_product_ids`. -/
def affectedProductIds (changes : SilverChanges) : List ℤ :=
  changedKeys changes .products ++
    changedIds changes .productVariants fun row ↦ row.payload.productId

/-! ### Scopes -/

/-- The sources of `fact_sales` in Silver. -/
def SilverLake.factSources (lake : SilverLake) : FactSources where
  orders := lake.rows .orders
  orderItems := lake.rows .orderItems
  orderVouchers := lake.rows .orderVouchers
  vouchers := lake.rows .vouchers
  payments := lake.rows .payments
  shipments := lake.rows .shipments

/-- The rows whose nullable id is among `ids` (a left semi join with a key set). -/
def filterIds {R : Type} (column : R → Option ℤ) (ids : List ℤ) (rows : List R) : List R :=
  rows.filter fun row ↦ (column row).any (· ∈ ids)

/-- `_fact_scope`; its order vouchers and vouchers are `_promotion_scope`. -/
def factScope (tables : FactSources) (orderIds : List ℤ) : FactSources :=
  let orderVouchers := filterIds (fun use ↦ some use.payload.orderId) orderIds tables.orderVouchers
  { orders := filterIds (fun o ↦ some o.key) orderIds tables.orders
    orderItems := filterIds (fun item ↦ some item.payload.orderId) orderIds tables.orderItems
    orderVouchers := orderVouchers
    vouchers := filterIds (fun v ↦ some v.key)
      (orderVouchers.filterMap fun use ↦ use.payload.voucherId) tables.vouchers
    payments := filterIds (fun p ↦ some p.payload.orderId) orderIds tables.payments
    shipments := filterIds (fun s ↦ some s.payload.orderId) orderIds tables.shipments }

/-- `_fact_dimension_scope`. -/
def factDimensionScope (sources : FactSources) (dimensions : FactDimensions) : FactDimensions :=
  let products := filterIds (fun v ↦ v.sourceKey)
    (sources.orderItems.filterMap fun item ↦ item.payload.productVariantId) dimensions.dimProduct
  { dimCustomer := filterIds (fun v ↦ v.sourceKey)
      (sources.orders.filterMap fun o ↦ o.payload.customerId) dimensions.dimCustomer
    dimProduct := products
    dimShop := filterIds (fun v ↦ v.sourceKey)
      (sources.orderItems.filterMap fun item ↦ item.payload.shopId) dimensions.dimShop
    dimCategory := filterIds (fun v ↦ v.sourceKey)
      (products.filterMap fun p ↦ p.attributes.sourceCategoryId) dimensions.dimCategory }

end LakehousePipeline
