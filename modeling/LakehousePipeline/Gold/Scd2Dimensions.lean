import LakehousePipeline.Contracts
import LakehousePipeline.Gold.Scd2Replay

/-!
# The SCD2 dimensions

Each dimension turns the change histories it is built from into events and replays them. Shops and
customers have one history. A category version depends on the timelines of the category and of its
parent, and a product version on those of a product and a variant: their events are the overlaps of
the validity intervals of both sides.

Key 0 is the unknown member, added by full builds only (`include_unknown`).

## What differs between the dimensions

The replay is the same for all of them. A dimension decides

* which columns are of Type 2: they are hashed to `attribute_hash`, and a new hash is a new version;
* which are of Type 1: `last_login_at` of a customer, and the prices and quantities of a variant.
  They take the last value of the whole version and start none;
* which operations count as deletes: that of the row, and for a product also that of its variant.

For the two joined dimensions an event belongs to two states, and so has two times and two sets of
order columns. Its time is the later of the two starts, and each order column is the greater of both
sides (`OrderFields.greatest`). A category without a parent in the history has events of its own; a
variant without a product has none.
-/

namespace LakehousePipeline

/-- The sort key, attributes and Type-1 columns of an unknown member. -/
def unknownMember {A κ V : Type} (attributes : A) : Scd2Row A κ V where
  surrogateKey := 0
  sourceKey := none
  attributes := attributes
  attributeHash := none
  type1 := fun _ ↦ none
  effectiveFrom := 0
  effectiveTo := openEndedEffectiveTo
  isCurrent := true
  isDeleted := false

/-- The unknown member and the rows, or the rows alone. -/
def withUnknown {A κ V : Type} (includeUnknown : Bool) (unknown : A) (rows : List (Scd2Row A κ V)) :
    List (Scd2Row A κ V) :=
  if includeUnknown then unknownMember unknown :: rows else rows

/-- A full build has the unknown member first. -/
@[simp] theorem withUnknown_true {A κ V : Type} (unknown : A) (rows : List (Scd2Row A κ V)) :
    withUnknown true unknown rows = unknownMember unknown :: rows := rfl

/-- An incremental one has not. -/
@[simp] theorem withUnknown_false {A κ V : Type} (unknown : A) (rows : List (Scd2Row A κ V)) :
    withUnknown false unknown rows = rows := rfl

/-! ### Shops -/

/-- The columns of `dim_shop` besides keys and range. -/
structure ShopAttributes where
  publicShopId : Option Text
  shopName : Option Text
  shopSlug : Option Text
  shopStatus : Option Text
  shopCreatedAt : Option Timestamp
  deriving DecidableEq

/-- A row of `dim_shop`. -/
abbrev ShopRow := Scd2Row ShopAttributes Empty ℤ

/-- A history row of `shops` as an event. -/
def shopEvent (fns : SparkFunctions) (row : HistoryRow ℤ ShopColumns) :
    Scd2Event ShopAttributes Empty ℤ where
  sourceKey := some row.key
  attributes :=
    { publicShopId := row.payload.publicShopId
      shopName := row.payload.shopName
      shopSlug := row.payload.shopSlug
      shopStatus := row.payload.status
      shopCreatedAt := some row.createdAt }
  attributeHash := naturalHash fns
    [row.payload.publicShopId, row.payload.shopName, row.payload.shopSlug, row.payload.status]
  type1 := Empty.elim
  initialEffectiveFrom := some row.createdAt
  eventTime := row.eventTime fns ShopColumns.updatedAt
  operation := row.operation
  historyEventId := row.historyEventId
  order := row.order

/-- `_unknown_shop`. -/
def unknownShop : ShopAttributes where
  publicShopId := none
  shopName := some "Unknown Shop".toList
  shopSlug := none
  shopStatus := some "unknown".toList
  shopCreatedAt := none

/-- `build_dim_shop_from_history`. -/
def buildDimShop (fns : SparkFunctions) (includeUnknown : Bool)
    (history : List (HistoryRow ℤ ShopColumns)) : List ShopRow :=
  withUnknown includeUnknown unknownShop
    (replaySingleEntityScd2 fns (history.map (shopEvent fns)))

/-! ### Customers -/

/-- The columns of `dim_customer` besides keys, range and `last_login_at`. -/
structure CustomerAttributes where
  publicCustomerId : Option Text
  username : Option Text
  email : Option Text
  firstName : Option Text
  lastName : Option Text
  fullName : Option Text
  phoneNumber : Option Text
  customerStatus : Option Text
  registeredAt : Option Timestamp
  deriving DecidableEq

/-- A row of `dim_customer`; `last_login_at` is the Type-1 column. -/
abbrev CustomerRow := Scd2Row CustomerAttributes Unit ℤ

/-- `_customer_history_events`, row by row. -/
def customerEvent (fns : SparkFunctions) (row : HistoryRow ℤ UserColumns) :
    Scd2Event CustomerAttributes Unit ℤ where
  sourceKey := some row.key
  attributes :=
    { publicCustomerId := row.payload.publicUserId
      username := row.payload.username
      email := row.payload.email
      firstName := row.payload.firstName
      lastName := row.payload.lastName
      fullName := some (trim (concatWs [' '] [row.payload.firstName, row.payload.lastName]))
      phoneNumber := row.payload.phoneNumber
      customerStatus := row.payload.status
      registeredAt := some row.createdAt }
  attributeHash := naturalHash fns
    [row.payload.username, row.payload.email, row.payload.firstName, row.payload.lastName,
      row.payload.phoneNumber, row.payload.status]
  type1 := fun _ ↦ row.payload.lastLogin
  initialEffectiveFrom := some row.createdAt
  eventTime := row.eventTime fns UserColumns.updatedAt
  operation := row.operation
  historyEventId := row.historyEventId
  order := row.order

/-- `_unknown_customer`. -/
def unknownCustomer : CustomerAttributes where
  publicCustomerId := none
  username := some "unknown".toList
  email := none
  firstName := none
  lastName := none
  fullName := some "Unknown Customer".toList
  phoneNumber := none
  customerStatus := some "unknown".toList
  registeredAt := none

/-- `build_dim_customer_from_history`. -/
def buildDimCustomer (fns : SparkFunctions) (includeUnknown : Bool)
    (history : List (HistoryRow ℤ UserColumns)) : List CustomerRow :=
  withUnknown includeUnknown unknownCustomer
    (replaySingleEntityScd2 fns (history.map (customerEvent fns)))

/-! ### Overlaps of two timelines -/

/-- The intervals of two states overlap, an open one reaching to `9999-12-31`. -/
def HistoryState.Overlaps {K K' P P' : Type} (a : HistoryState K P) (b : HistoryState K' P') :
    Prop :=
  a.stateFrom < b.stateTo.getD openEndedEffectiveTo ∧
    b.stateFrom < a.stateTo.getD openEndedEffectiveTo

instance {K K' P P' : Type} (a : HistoryState K P) (b : HistoryState K' P') :
    Decidable (a.Overlaps b) :=
  inferInstanceAs (Decidable (_ ∧ _))

/-- `_composite_order_columns`: the greater of both sides, column by column. -/
def OrderFields.greatest (a b : OrderFields) : OrderFields where
  ingestionPriority := greatestOf a.ingestionPriority b.ingestionPriority
  sourceEventSequence := greatestOf a.sourceEventSequence b.sourceEventSequence
  sourceEventSubsequence := greatestOf a.sourceEventSubsequence b.sourceEventSubsequence
  sourceLsn := greatestOf a.sourceLsn b.sourceLsn
  kafkaPartition := greatestOf a.kafkaPartition b.kafkaPartition
  kafkaOffset := greatestOf a.kafkaOffset b.kafkaOffset

/-- The order columns of a side the join did not find. -/
def OrderFields.null : OrderFields :=
  ⟨none, none, none, none, none, none⟩

/-! ### Categories -/

/-- The columns of `dim_category` besides keys and range. -/
structure CategoryAttributes where
  sourceParentCategoryId : Option ℤ
  categoryName : Option Text
  categorySlug : Option Text
  parentCategoryName : Option Text
  isActive : Option Bool
  categoryCreatedAt : Option Timestamp
  deriving DecidableEq

/-- A row of `dim_category`. -/
abbrev CategoryRow := Scd2Row CategoryAttributes Empty ℤ

/-- The event of a category state together with a parent state, if any. -/
def categoryEvent (fns : SparkFunctions)
    (overlap : HistoryState ℤ CategoryColumns × Option (HistoryState ℤ CategoryColumns)) :
    Scd2Event CategoryAttributes Empty ℤ :=
  let (category, parent) := overlap
  let columns := category.row.payload
  let eventTime := category.stateFrom ⊔ (parent.map fun p ↦ p.stateFrom).getD category.stateFrom
  let parentName := parent.bind fun p ↦ if p.stateDeleted then none else p.row.payload.categoryName
  { sourceKey := some category.row.key
    attributes :=
      { sourceParentCategoryId := columns.parentCategoryId
        categoryName := columns.categoryName
        categorySlug := columns.slug
        parentCategoryName := parentName
        isActive := columns.isActive
        categoryCreatedAt := some category.row.createdAt }
    attributeHash := naturalHash fns
      [columns.parentCategoryId.map fns.castInt, columns.categoryName, columns.slug, parentName,
        columns.isActive.map fns.castBool]
    type1 := Empty.elim
    initialEffectiveFrom := some category.row.createdAt
    eventTime := eventTime
    operation := if category.stateDeleted then .delete else .update
    historyEventId := fns.sha256 (concatWs hashSeparator
      [some "category".toList, some category.row.historyEventId,
        some ((parent.map fun p ↦ p.row.historyEventId).getD "root".toList),
        some (fns.castTimestamp eventTime)])
    order := category.row.order.greatest ((parent.map fun p ↦ p.row.order).getD OrderFields.null) }

/-- The events of all categories: each state with each overlapping state of its parent. -/
def categoryEvents (fns : SparkFunctions) (history : List (HistoryRow ℤ CategoryColumns)) :
    List (Scd2Event CategoryAttributes Empty ℤ) :=
  let states := historyStates fns CategoryColumns.updatedAt history
  (Relational.leftJoin
    (fun category parent ↦
      category.row.payload.parentCategoryId = some parent.row.key ∧ category.Overlaps parent)
    states states).map (categoryEvent fns)

/-- `_unknown_category`. -/
def unknownCategory : CategoryAttributes where
  sourceParentCategoryId := none
  categoryName := some "Unknown Category".toList
  categorySlug := some "unknown".toList
  parentCategoryName := none
  isActive := some false
  categoryCreatedAt := none

/-- `build_dim_category_from_history`. -/
def buildDimCategory (fns : SparkFunctions) (includeUnknown : Bool)
    (history : List (HistoryRow ℤ CategoryColumns)) : List CategoryRow :=
  withUnknown includeUnknown unknownCategory
    (replaySingleEntityScd2 fns (categoryEvents fns history))

/-! ### Products -/

/-- The Type-1 columns of `dim_product`. -/
inductive ProductType1
  | currentUnitPrice
  | compareAtPrice
  | stockQuantity
  | reservedQuantity
  deriving DecidableEq, Repr

/-- The columns of `dim_product` besides the variant key, the range and the Type-1 columns. -/
structure ProductAttributes where
  sourceProductId : Option ℤ
  sourceShopId : Option ℤ
  sourceCategoryId : Option ℤ
  publicProductId : Option Text
  publicVariantId : Option Text
  productSku : Option Text
  productSlug : Option Text
  productName : Option Text
  brand : Option Text
  productStatus : Option Text
  isFeatured : Option Bool
  variantSku : Option Text
  variantName : Option Text
  variantStatus : Option Text
  variantOptionsJson : Option Text
  isDefaultVariant : Option Bool
  currency : Option Text
  weightKg : Option ℤ
  productAttributesJson : Option Text
  productImagesJson : Option Text
  variantImagesJson : Option Text
  productCreatedAt : Option Timestamp
  variantCreatedAt : Option Timestamp
  deriving DecidableEq

/-- A row of `dim_product`, one entity per product variant. -/
abbrev ProductRow := Scd2Row ProductAttributes ProductType1 ℤ

/-- The event of a variant state together with a state of its product. -/
def productEvent (fns : SparkFunctions)
    (overlap : HistoryState ℤ VariantColumns × HistoryState ℤ ProductColumns) :
    Scd2Event ProductAttributes ProductType1 ℤ :=
  let (variant, product) := overlap
  let v := variant.row.payload
  let p := product.row.payload
  let eventTime := variant.stateFrom ⊔ product.stateFrom
  { sourceKey := some variant.row.key
    attributes :=
      { sourceProductId := some product.row.key
        sourceShopId := p.shopId
        sourceCategoryId := p.categoryId
        publicProductId := p.publicProductId
        publicVariantId := v.publicVariantId
        productSku := p.productSku
        productSlug := p.productSlug
        productName := p.productName
        brand := p.brand
        productStatus := p.status
        isFeatured := p.isFeatured
        variantSku := v.variantSku
        variantName := v.variantName
        variantStatus := v.status
        variantOptionsJson := v.optionsJson
        isDefaultVariant := v.isDefault
        currency := v.currency
        weightKg := v.weightKg
        productAttributesJson := p.attributesJson
        productImagesJson := p.imagesJson
        variantImagesJson := v.imagesJson
        productCreatedAt := some product.row.createdAt
        variantCreatedAt := some variant.row.createdAt }
    attributeHash := naturalHash fns
      [some (fns.castInt product.row.key), p.shopId.map fns.castInt, p.categoryId.map fns.castInt,
        p.publicProductId, v.publicVariantId, p.productSku, p.productSlug, p.productName, p.brand,
        p.status, p.isFeatured.map fns.castBool, v.variantSku, v.variantName, v.status,
        v.optionsJson, v.isDefault.map fns.castBool, v.currency, v.weightKg.map fns.castWeight,
        p.attributesJson, p.imagesJson, v.imagesJson]
    type1 := fun
      | .currentUnitPrice => v.unitPrice
      | .compareAtPrice => v.compareAtPrice
      | .stockQuantity => v.stockQuantity
      | .reservedQuantity => v.reservedQuantity
    initialEffectiveFrom := some variant.row.createdAt
    eventTime := eventTime
    operation := if variant.stateDeleted || product.stateDeleted then .delete else .update
    historyEventId := fns.sha256 (concatWs hashSeparator
      [some "product".toList, some product.row.historyEventId, some variant.row.historyEventId,
        some (fns.castTimestamp eventTime)])
    order := product.row.order.greatest variant.row.order }

/-- The events of all variants: each state with each overlapping state of its product. -/
def productEvents (fns : SparkFunctions) (productHistory : List (HistoryRow ℤ ProductColumns))
    (variantHistory : List (HistoryRow ℤ VariantColumns)) :
    List (Scd2Event ProductAttributes ProductType1 ℤ) :=
  (Relational.innerJoin
    (fun variant product ↦
      variant.row.payload.productId = some product.row.key ∧ variant.Overlaps product)
    (historyStates fns VariantColumns.updatedAt variantHistory)
    (historyStates fns ProductColumns.updatedAt productHistory)).map (productEvent fns)

/-- `_unknown_product`. -/
def unknownProduct : ProductAttributes where
  sourceProductId := none
  sourceShopId := none
  sourceCategoryId := none
  publicProductId := none
  publicVariantId := none
  productSku := some "unknown".toList
  productSlug := none
  productName := some "Unknown Product".toList
  brand := none
  productStatus := some "unknown".toList
  isFeatured := some false
  variantSku := some "unknown".toList
  variantName := some "Unknown Variant".toList
  variantStatus := some "unknown".toList
  variantOptionsJson := none
  isDefaultVariant := some false
  currency := none
  weightKg := none
  productAttributesJson := none
  productImagesJson := none
  variantImagesJson := none
  productCreatedAt := none
  variantCreatedAt := none

/-- `build_dim_product_from_history`. -/
def buildDimProduct (fns : SparkFunctions) (includeUnknown : Bool)
    (productHistory : List (HistoryRow ℤ ProductColumns))
    (variantHistory : List (HistoryRow ℤ VariantColumns)) : List ProductRow :=
  withUnknown includeUnknown unknownProduct
    (replaySingleEntityScd2 fns (productEvents fns productHistory variantHistory))

end LakehousePipeline
