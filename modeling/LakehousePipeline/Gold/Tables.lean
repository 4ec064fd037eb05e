import LakehousePipeline.Gold.FactSales
import Mathlib.Data.Fintype.Basic
import Mathlib.Data.Fintype.Pi

/-!
# The Gold tables

The eleven tables as one family: the type of a row and its merge key depend on the table. A snapshot
gives every table its rows.
-/

namespace LakehousePipeline

instance : Fintype ProductType1 where
  elems := {.currentUnitPrice, .compareAtPrice, .stockQuantity, .reservedQuantity}
  complete column := by cases column <;> decide

instance {A κ V : Type} [DecidableEq A] [DecidableEq (κ → Option V)] :
    DecidableEq (Scd2Row A κ V) := fun v w ↦
  decidable_of_iff (v.surrogateKey = w.surrogateKey ∧ v.sourceKey = w.sourceKey ∧
      v.attributes = w.attributes ∧ v.attributeHash = w.attributeHash ∧ v.type1 = w.type1 ∧
      v.effectiveFrom = w.effectiveFrom ∧ v.effectiveTo = w.effectiveTo ∧
      v.isCurrent = w.isCurrent ∧ v.isDeleted = w.isDeleted)
    (by cases v; cases w; simp)

/-! ### Rows and keys -/

/-- The rows of a table. -/
def GoldRow : GoldTable → Type
  | .dimCustomer => CustomerRow
  | .dimDate => DateRow
  | .dimTime => TimeRow
  | .dimLocation => LocationRow
  | .dimShop => ShopRow
  | .dimCategory => CategoryRow
  | .dimProduct => ProductRow
  | .dimPromotion => PromotionRow
  | .dimPayment => PaymentRow
  | .dimShipping => ShippingRow
  | .factSales => FactRow

/-- The single-column key of a row: the key of a dimension member, `sales_key` of a fact. -/
def memberKey : (t : GoldTable) → GoldRow t → ℤ
  | .dimCustomer => fun row : CustomerRow ↦ row.surrogateKey
  | .dimDate => fun row : DateRow ↦ row.dateKey
  | .dimTime => fun row : TimeRow ↦ row.timeKey
  | .dimLocation => fun row : LocationRow ↦ row.locationKey
  | .dimShop => fun row : ShopRow ↦ row.surrogateKey
  | .dimCategory => fun row : CategoryRow ↦ row.surrogateKey
  | .dimProduct => fun row : ProductRow ↦ row.surrogateKey
  | .dimPromotion => fun row : PromotionRow ↦ row.promotionKey
  | .dimPayment => fun row : PaymentRow ↦ row.paymentKey
  | .dimShipping => fun row : ShippingRow ↦ row.shippingKey
  | .factSales => fun row : FactRow ↦ row.salesKey

/-- Order and order item of a fact row. -/
def FactRow.sourceKey (fact : FactRow) : ℤ × ℤ :=
  (fact.sourceOrderId, fact.sourceOrderItemId)

/-- The merge keys of a table: order and item for the facts, else the member key. -/
def GoldKey : GoldTable → Type
  | .factSales => ℤ × ℤ
  | _ => ℤ

/-- The merge key of a row. -/
def goldKey : (t : GoldTable) → GoldRow t → GoldKey t
  | .factSales => FactRow.sourceKey
  | .dimCustomer => memberKey .dimCustomer
  | .dimDate => memberKey .dimDate
  | .dimTime => memberKey .dimTime
  | .dimLocation => memberKey .dimLocation
  | .dimShop => memberKey .dimShop
  | .dimCategory => memberKey .dimCategory
  | .dimProduct => memberKey .dimProduct
  | .dimPromotion => memberKey .dimPromotion
  | .dimPayment => memberKey .dimPayment
  | .dimShipping => memberKey .dimShipping

/-- The members of a dimension are merged by their key. -/
theorem goldKey_eq_iff {t : GoldTable} (h : t ≠ .factSales) (x y : GoldRow t) :
    goldKey t x = goldKey t y ↔ memberKey t x = memberKey t y := by
  cases t with
  | factSales => exact absurd rfl h
  | _ => exact Iff.rfl

instance : (t : GoldTable) → DecidableEq (GoldRow t)
  | .dimCustomer => inferInstanceAs (DecidableEq CustomerRow)
  | .dimDate => inferInstanceAs (DecidableEq DateRow)
  | .dimTime => inferInstanceAs (DecidableEq TimeRow)
  | .dimLocation => inferInstanceAs (DecidableEq LocationRow)
  | .dimShop => inferInstanceAs (DecidableEq ShopRow)
  | .dimCategory => inferInstanceAs (DecidableEq CategoryRow)
  | .dimProduct => inferInstanceAs (DecidableEq ProductRow)
  | .dimPromotion => inferInstanceAs (DecidableEq PromotionRow)
  | .dimPayment => inferInstanceAs (DecidableEq PaymentRow)
  | .dimShipping => inferInstanceAs (DecidableEq ShippingRow)
  | .factSales => inferInstanceAs (DecidableEq FactRow)

instance : (t : GoldTable) → DecidableEq (GoldKey t)
  | .factSales => inferInstanceAs (DecidableEq (ℤ × ℤ))
  | .dimCustomer | .dimDate | .dimTime | .dimLocation | .dimShop | .dimCategory | .dimProduct
  | .dimPromotion | .dimPayment | .dimShipping => inferInstanceAs (DecidableEq ℤ)

/-! ### Snapshots -/

/-- The rows of all tables. -/
abbrev GoldSnapshot := (t : GoldTable) → List (GoldRow t)

/-- The facts of a snapshot. -/
def GoldSnapshot.facts (gold : GoldSnapshot) : List FactRow :=
  gold .factSales

/-- A snapshot with other facts. -/
def GoldSnapshot.withFacts (gold : GoldSnapshot) (facts : List (GoldRow .factSales)) :
    GoldSnapshot :=
  Function.update gold .factSales facts

@[simp] theorem GoldSnapshot.withFacts_factSales (gold : GoldSnapshot)
    (facts : List (GoldRow .factSales)) : gold.withFacts facts .factSales = facts :=
  Function.update_self _ _ _

theorem GoldSnapshot.withFacts_of_ne (gold : GoldSnapshot) (facts : List (GoldRow .factSales))
    {t : GoldTable} (ht : t ≠ .factSales) : gold.withFacts facts t = gold t :=
  Function.update_of_ne ht _ _

/-- The SCD2 dimensions of a snapshot. -/
def GoldSnapshot.factDimensions (gold : GoldSnapshot) : FactDimensions where
  dimCustomer := gold .dimCustomer
  dimShop := gold .dimShop
  dimCategory := gold .dimCategory
  dimProduct := gold .dimProduct

/-- The keys of the members of a dimension. -/
def GoldSnapshot.members (gold : GoldSnapshot) (t : GoldTable) : List ℤ :=
  (gold t).map (memberKey t)

/-- The foreign keys of `fact_sales` (`DIMENSION_KEYS` and the two location keys). -/
def foreignKeys : List (GoldTable × (FactRow → ℤ)) :=
  [(.dimDate, FactRow.orderDateKey), (.dimTime, FactRow.orderTimeKey),
    (.dimCustomer, FactRow.customerKey), (.dimProduct, FactRow.productKey),
    (.dimShop, FactRow.shopKey), (.dimCategory, FactRow.categoryKey),
    (.dimPromotion, FactRow.promotionKey), (.dimPayment, FactRow.paymentKey),
    (.dimShipping, FactRow.shippingKey), (.dimLocation, FactRow.shipToLocationKey),
    (.dimLocation, FactRow.billToLocationKey)]

/-- **Every foreign key of every fact row is the key of a member.** -/
def GoldSnapshot.Closed (gold : GoldSnapshot) : Prop :=
  ∀ fact ∈ gold .factSales, ∀ reference ∈ foreignKeys, reference.2 fact ∈ gold.members reference.1

end LakehousePipeline
