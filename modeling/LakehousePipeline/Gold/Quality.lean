import LakehousePipeline.Gold.Tables
import LakehousePipeline.Library.Checks

/-!
# `GoldQualityChecker`

The gate a Gold run has to pass before it publishes. A full run checks all facts, all members and
all SCD2 dimensions; an incremental run checks the SCD2 dimensions it wrote and the facts it
rebuilt. Each check either passes or names the first violation; where the source reports an
arbitrary one of several, the first is reported here.
-/

namespace LakehousePipeline

/-- The rule an SCD2 dimension violates. -/
inductive Scd2Violation
  /-- "invalid current member count". -/
  | invalidCurrent
  /-- "invalid effective date range". -/
  | invalidRange
  /-- "overlapping effective date range". -/
  | overlap
  deriving DecidableEq, Repr

/-- `GoldQualityError`. -/
inductive GoldQualityError
  /-- "Duplicate key in gold.fact_sales: ['source_order_id', 'source_order_item_id']". -/
  | duplicateSourceKey
  /-- "Duplicate key in gold.fact_sales: ['sales_key']". -/
  | duplicateSalesKey
  /-- "Gold fact contains null/invalid quantity or monetary amounts". -/
  | invalidAmount
  /-- "Gold fact contains unresolved required dimension keys". -/
  | unresolvedKey
  /-- "Missing gold.{dimension} reference". -/
  | missingReference (dimension : GoldTable)
  /-- "Duplicate key in gold.{dimension}: {key}". -/
  | duplicateMember (dimension : GoldTable) (key : ℤ)
  /-- "Invalid SCD2 history in gold.{dimension}". -/
  | invalidHistory (dimension : GoldTable) (violation : Scd2Violation)
  /-- "Fact row count mismatch". -/
  | rowCountMismatch (sourceItems factRows : ℕ)
  /-- "Gold fact is missing one or more source order-item keys". -/
  | missingOrderItem
  /-- "Source-to-Gold monetary reconciliation failed". -/
  | monetaryMismatch (orderId : ℤ)
  deriving DecidableEq, Repr

/-! ### Facts -/

/-- `MONETARY_COLUMNS`. -/
def FactRow.monetaryColumns (f : FactRow) : List (Option ℤ) :=
  [f.unitPriceAmount, f.grossSalesAmount, f.lineDiscountAmount, f.orderDiscountAmountAllocated,
    f.totalDiscountAmount, f.taxAmount, f.shippingAmountAllocated, f.netSalesAmount]

/-- `REQUIRED_NON_UNKNOWN_KEYS`. -/
def FactRow.requiredKeys (f : FactRow) : List ℤ :=
  [f.orderDateKey, f.orderTimeKey, f.customerKey, f.productKey, f.shopKey, f.categoryKey,
    f.shipToLocationKey, f.billToLocationKey]

/-- A null or non-positive quantity, or a null or negative amount. -/
def FactRow.hasInvalidAmount (f : FactRow) : Bool :=
  !(f.quantity.any fun q ↦ 0 < q) || f.monetaryColumns.any fun a ↦ !(a.any fun a ↦ 0 ≤ a)

/-- A required key is the unknown one. -/
def FactRow.hasUnresolvedKey (f : FactRow) : Bool :=
  f.requiredKeys.any fun key ↦ key = 0

/-- `_assert_fact_metrics`. -/
def assertFactMetrics (facts : List FactRow) : Except GoldQualityError Unit :=
  if (facts.map FactRow.sourceKey).dedup.length ≠ facts.length then .error .duplicateSourceKey
  else if (facts.map FactRow.salesKey).dedup.length ≠ facts.length then .error .duplicateSalesKey
  else if facts.any FactRow.hasInvalidAmount then .error .invalidAmount
  else if facts.any FactRow.hasUnresolvedKey then .error .unresolvedKey
  else .ok ()

/-! ### References -/

/-- The dimensions with a key contract. -/
def referencedDimensions : List GoldTable :=
  (foreignKeys.map Prod.fst).dedup

/-- `_assert_dimension_integrity`. -/
def assertDimensionIntegrity (gold : GoldSnapshot) (facts : List FactRow)
    (checkUniqueness : Bool) : Except GoldQualityError Unit :=
  match foreignKeys.find? fun reference ↦
      facts.any fun f ↦ reference.2 f ∉ gold.members reference.1 with
  | some reference => .error (.missingReference reference.1)
  | none =>
    match (if checkUniqueness then referencedDimensions else []).findSome? fun t ↦
        ((gold.members t).find? fun key ↦ 1 < (gold.members t).count key).map fun key ↦
          (t, key) with
    | some (t, key) => .error (.duplicateMember t key)
    | none => .ok ()

/-! ### SCD2 ranges -/

section Scd2

variable {A κ V : Type}

/-- The versions of a member. -/
def versionsOf (dimension : List (Scd2Row A κ V)) (member : Option ℤ) : List (Scd2Row A κ V) :=
  (knownVersions dimension).filter fun v ↦ v.sourceKey = member

/-- More than one current version, or none although no version is deleted. -/
def hasInvalidCurrent (dimension : List (Scd2Row A κ V)) (member : Option ℤ) : Bool :=
  let current := ((versionsOf dimension member).filter fun v ↦ v.isCurrent).length
  1 < current || (current = 0 && !(versionsOf dimension member).any fun v ↦ v.isDeleted)

/-- A version that starts before the one ahead of it ends. -/
def hasOverlap (dimension : List (Scd2Row A κ V)) : Bool :=
  (Window.overPartition (fun v ↦ v.sourceKey)
    (fun v w : Scd2Row A κ V ↦ (toLex (v.effectiveFrom, v.surrogateKey) : ℤ ×ₗ ℤ) ≤
      toLex (w.effectiveFrom, w.surrogateKey))
    (fun before v _ ↦ before.getLast?.any fun previous ↦ v.effectiveFrom < previous.effectiveTo)
    (knownVersions dimension)).any id

/-- `_scd2_violations`, the first one. -/
def scd2Violation (dimension : List (Scd2Row A κ V)) : Option Scd2Violation :=
  if ((knownVersions dimension).map fun v ↦ v.sourceKey).any (hasInvalidCurrent dimension) then
    some .invalidCurrent
  else if (knownVersions dimension).any fun v ↦ v.effectiveTo ≤ v.effectiveFrom then
    some .invalidRange
  else if hasOverlap dimension then some .overlap
  else none

end Scd2

/-- The SCD2 dimensions. -/
def scd2Dimensions : List GoldTable :=
  [.dimCustomer, .dimShop, .dimCategory, .dimProduct]

/-- The violation of one of the SCD2 dimensions. -/
def scd2ViolationOf (gold : GoldSnapshot) : GoldTable → Option Scd2Violation
  | .dimCustomer => scd2Violation gold.factDimensions.dimCustomer
  | .dimShop => scd2Violation gold.factDimensions.dimShop
  | .dimCategory => scd2Violation gold.factDimensions.dimCategory
  | .dimProduct => scd2Violation gold.factDimensions.dimProduct
  | _ => none

/-- `validate_scd2` of the given tables. -/
def validateScd2 (gold : GoldSnapshot) (tables : List GoldTable) : Except GoldQualityError Unit :=
  match tables.findSome? fun t ↦ (scd2ViolationOf gold t).map fun v ↦ (t, v) with
  | some (t, v) => .error (.invalidHistory t v)
  | none => .ok ()

/-! ### Reconciliation -/

/-- Two recorded amounts that are more than one cent apart. -/
def differByMoreThanTolerance (expected actual : Option ℤ) : Bool :=
  match expected, actual with
  | some expected, some actual => 1 < (expected - actual).natAbs
  | _, _ => false

/-- The facts of an order do not add up to its header. -/
def hasMonetaryMismatch (facts : List FactRow) (order : Order) : Bool :=
  let rows := facts.filter fun f ↦ f.sourceOrderId = order.key
  let sum := fun column : FactRow → Option ℤ ↦ sumOf (rows.map column)
  (sum FactRow.netSalesAmount).isNone ||
    differByMoreThanTolerance order.payload.subtotalAmount (sum FactRow.grossSalesAmount) ||
    differByMoreThanTolerance order.payload.discountAmount (sum FactRow.totalDiscountAmount) ||
    differByMoreThanTolerance order.payload.taxAmount (sum FactRow.taxAmount) ||
    differByMoreThanTolerance order.payload.shippingAmount (sum FactRow.shippingAmountAllocated) ||
    differByMoreThanTolerance order.payload.totalAmount (sum FactRow.netSalesAmount)

/-- `_assert_reconciliation`. -/
def assertReconciliation (facts : List FactRow) (orders : List Order) (items : List OrderItem) :
    Except GoldQualityError Unit :=
  if items.length ≠ facts.length then .error (.rowCountMismatch items.length facts.length)
  else if items.any fun item ↦
      (item.payload.orderId, item.key) ∉ facts.map FactRow.sourceKey then .error .missingOrderItem
  else
    match orders.find? (hasMonetaryMismatch facts) with
    | some order => .error (.monetaryMismatch order.key)
    | none => .ok ()

/-! ### The gates -/

/-- `run`: the gate of a full build, over the Gold tables and the Silver orders and items. -/
def qualityRun (gold : GoldSnapshot) (orders : List Order) (items : List OrderItem) :
    Except GoldQualityError Unit := do
  assertFactMetrics (gold .factSales)
  assertDimensionIntegrity gold (gold .factSales) true
  validateScd2 gold scd2Dimensions
  assertReconciliation (gold .factSales) orders items

/-- `run_incremental`: the gate of the rebuilt facts. -/
def qualityRunIncremental (gold : GoldSnapshot) (facts : List FactRow) (orders : List Order)
    (items : List OrderItem) : Except GoldQualityError Unit := do
  assertFactMetrics facts
  assertDimensionIntegrity gold facts false
  assertReconciliation facts orders items

/-! ### What a passed gate says -/

theorem refs_of_assertDimensionIntegrity {gold : GoldSnapshot} {facts : List FactRow}
    {checkUniqueness : Bool} (h : assertDimensionIntegrity gold facts checkUniqueness = .ok ()) :
    ∀ f ∈ facts, ∀ reference ∈ foreignKeys, reference.2 f ∈ gold.members reference.1 := by
  intro f hf reference hreference
  unfold assertDimensionIntegrity at h
  split at h
  · cases h
  · rename_i hfind
    have hall := List.find?_eq_none.1 hfind reference hreference
    simp only [List.any_eq_true, decide_eq_true_eq, not_exists, not_and, not_not] at hall
    exact hall f hf

/-- **A full gate that passes finds every reference.** -/
theorem closed_of_qualityRun {gold : GoldSnapshot} {orders : List Order} {items : List OrderItem}
    (h : qualityRun gold orders items = .ok ()) : gold.Closed := by
  obtain ⟨⟨⟩, -, h⟩ := Checks.exists_of_bind_eq_ok h
  obtain ⟨⟨⟩, hrefs, -⟩ := Checks.exists_of_bind_eq_ok h
  exact refs_of_assertDimensionIntegrity hrefs

/-- Facts that reconcile are as many as the order items, and have the key of each of them. -/
theorem items_of_assertReconciliation {facts : List FactRow} {orders : List Order}
    {items : List OrderItem} (h : assertReconciliation facts orders items = .ok ()) :
    items.length = facts.length ∧
      ∀ item ∈ items, (item.payload.orderId, item.key) ∈ facts.map FactRow.sourceKey := by
  unfold assertReconciliation at h
  split at h
  · cases h
  · rename_i hlength
    split at h
    · cases h
    · rename_i hmissing
      refine ⟨not_not.1 hlength, fun item hitem ↦ not_not.1 fun hnot ↦ hmissing ?_⟩
      exact List.any_eq_true.2 ⟨item, hitem, decide_eq_true hnot⟩

/-- **Facts that reconcile are one for each order item**, and no other, where the items have
distinct keys. -/
theorem perm_sourceKey_of_assertReconciliation {facts : List FactRow} {orders : List Order}
    {items : List OrderItem} (h : assertReconciliation facts orders items = .ok ())
    (hkeys : (items.map fun item ↦ item.key).Nodup) :
    (facts.map FactRow.sourceKey).Perm
      (items.map fun item ↦ (item.payload.orderId, item.key)) := by
  obtain ⟨hlength, hfound⟩ := items_of_assertReconciliation h
  have hnodup : (items.map fun item ↦ (item.payload.orderId, item.key)).Nodup := by
    refine List.Nodup.of_map (fun k : ℤ × ℤ ↦ k.2) ?_
    rwa [List.map_map]
  have hsubset := List.subperm_of_subset hnodup (List.forall_mem_map.2 hfound)
  refine (hsubset.perm_of_length_le ?_).symm
  rw [List.length_map, List.length_map, hlength]

theorem assertReconciliation_of_qualityRun {gold : GoldSnapshot} {orders : List Order}
    {items : List OrderItem} (h : qualityRun gold orders items = .ok ()) :
    assertReconciliation (gold .factSales) orders items = .ok () := by
  obtain ⟨⟨⟩, -, h⟩ := Checks.exists_of_bind_eq_ok h
  obtain ⟨⟨⟩, -, h⟩ := Checks.exists_of_bind_eq_ok h
  obtain ⟨⟨⟩, -, h⟩ := Checks.exists_of_bind_eq_ok h
  exact h

/-- A full gate that passes counts one fact for each order item. -/
theorem length_of_qualityRun {gold : GoldSnapshot} {orders : List Order} {items : List OrderItem}
    (h : qualityRun gold orders items = .ok ()) :
    items.length = List.length (α := FactRow) (gold .factSales) :=
  (items_of_assertReconciliation (assertReconciliation_of_qualityRun h)).1

/-- **An incremental gate that passes finds every reference of the rebuilt facts.** -/
theorem refs_of_qualityRunIncremental {gold : GoldSnapshot} {facts : List FactRow}
    {orders : List Order} {items : List OrderItem}
    (h : qualityRunIncremental gold facts orders items = .ok ()) :
    ∀ f ∈ facts, ∀ reference ∈ foreignKeys, reference.2 f ∈ gold.members reference.1 := by
  obtain ⟨⟨⟩, -, h⟩ := Checks.exists_of_bind_eq_ok h
  obtain ⟨⟨⟩, hrefs, -⟩ := Checks.exists_of_bind_eq_ok h
  exact refs_of_assertDimensionIntegrity hrefs

end LakehousePipeline
