import LakehousePipeline.Generator.ChangeEvents

/-!
# What `insert_order` writes

An inserted order is complete (`complete_inserted`): its header is the sums over its items, its
discount is that of its items and its voucher, it has one payment, of its total, and one shipment.
The voucher is what needs an assumption: without an active voucher the discount of the order is
written to the header only.

## Amounts

`money` rounds half to even, and here it only ever rounds a rate of an amount of whole cents, so
`percentOf` is all of the arithmetic. What is needed of it is that a rate between zero and one takes
no less than nothing and no more than there is (`percentOf_nonneg`, `percentOf_le`). From that come
the `CHECK`s of the header and of the items, for whatever is drawn (`AmountsDrawn`).

## References

What an order refers to is read from the state loaded at the start of a transaction, not from the
tables. `Loaded` says that this state describes the tables still; `loaded_of_loadState` gives it for
a state that was loaded just now, and it stays because `references` does.
-/

namespace LakehousePipeline.Generator

open Checks KeyedTables

/-! ### Rounding -/

/-- A rate of an amount is not negative. -/
theorem percentOf_nonneg {percent amount : ℤ} (hpercent : 0 ≤ percent) (hamount : 0 ≤ amount) :
    0 ≤ percentOf percent amount := by
  have hpos : 0 ≤ percent * amount := mul_nonneg hpercent hamount
  unfold percentOf roundHalfEven
  generalize percent * amount = n at hpos ⊢
  split_ifs <;> omega

/-- A rate of at most one takes no more than there is. -/
theorem percentOf_le {percent amount : ℤ} (hpercent : percent ≤ 100) (hamount : 0 ≤ amount) :
    percentOf percent amount ≤ amount := by
  have hle : percent * amount ≤ 100 * amount := mul_le_mul_of_nonneg_right hpercent hamount
  unfold percentOf roundHalfEven
  generalize percent * amount = n at hle ⊢
  split_ifs <;> omega

/-! ### What is referred to -/

/-- The columns of the other tables that the rows of orders refer to. -/
@[ext]
structure References where
  users : List (Option ℤ)
  addresses : List (Option ℤ × Option ℤ)
  shops : List (Option ℤ)
  products : List (Option ℤ × Option ℤ)
  productVariants : List (Option ℤ × Option ℤ)
  activeVouchers : List (Option ℤ)

namespace OltpDatabase

variable (db : OltpDatabase)

/-- The vouchers that can be used. -/
def activeVouchers : List Voucher :=
  db.vouchers.filter fun voucher ↦ voucher.payload.isActive = some true

/-- The references of a database. -/
def references : References where
  users := db.appUsers.map fun user ↦ some user.key
  addresses := db.userAddresses.map fun address ↦ (some address.key, address.payload.userId)
  shops := db.shops.map fun shop ↦ some shop.key
  products := db.products.map fun product ↦ (some product.key, product.payload.shopId)
  productVariants := db.productVariants.map fun row ↦ (some row.key, row.payload.productId)
  activeVouchers := db.activeVouchers.map fun voucher ↦ some voucher.key

end OltpDatabase

namespace References

variable (refs : References)

/-- The customer of an order and its two addresses. -/
structure HasCustomer (order : OrderColumns) : Prop where
  user : order.customerId ∈ refs.users
  shippingAddress : (order.shippingAddressId, order.customerId) ∈ refs.addresses
  billingAddress : (order.billingAddressId, order.customerId) ∈ refs.addresses

/-- The product of an item, its shop and its variant. -/
structure HasProduct (item : OrderItemColumns) : Prop where
  shop : item.shopId ∈ refs.shops
  product : (item.productId, item.shopId) ∈ refs.products
  variant : (item.productVariantId, item.productId) ∈ refs.productVariants

end References

section References

variable {db : OltpDatabase}

/-- An address of a customer, read from the references. -/
theorem hasAddress_iff {customerId addressId : Option ℤ} :
    db.HasAddress customerId addressId ↔ (addressId, customerId) ∈ db.references.addresses := by
  simp only [OltpDatabase.HasAddress, OltpDatabase.references, List.mem_map, Prod.mk.injEq]

/-- The product of an item, read from the references. -/
theorem hasProduct_iff {item : OrderItemColumns} :
    db.HasProduct item ↔ db.references.HasProduct item := by
  constructor
  · rintro ⟨hshop, hproduct, hvariant⟩
    exact ⟨List.mem_map.2 hshop, by simpa [OltpDatabase.references] using hproduct,
      by simpa [OltpDatabase.references] using hvariant⟩
  · rintro ⟨hshop, hproduct, hvariant⟩
    exact ⟨List.mem_map.1 hshop, by simpa [OltpDatabase.references] using hproduct,
      by simpa [OltpDatabase.references] using hvariant⟩

end References

/-! ### What is loaded -/

/-- **What the generator has loaded is in the database**, and all the vouchers are loaded. -/
structure Loaded (refs : References) (state : RuntimeState) : Prop where
  users : ∀ user ∈ state.users,
    some user.userId ∈ refs.users ∧ (some user.addressId, some user.userId) ∈ refs.addresses
  variants : ∀ variant ∈ state.variants, 0 ≤ variant.unitPrice ∧
    (some variant.productVariantId, some variant.productId) ∈ refs.productVariants ∧
    ∃ shopId, (some variant.productId, shopId) ∈ refs.products ∧ shopId.getD 0 = variant.shopId
  voucherIds : ∀ voucherId, voucherId ∈ state.voucherIds ↔ some voucherId ∈ refs.activeVouchers

section Load

variable {render : Rendering} {db : OltpDatabase} {state : RuntimeState}

/-- A loaded user has its row and an address of its own. -/
theorem mem_references_of_runtimeUser {user : User} (huser : user ∈ db.appUsers)
    {loaded : RuntimeUser} (h : runtimeUser render db user = some loaded) :
    some loaded.userId ∈ db.references.users ∧
      (some loaded.addressId, some loaded.userId) ∈ db.references.addresses := by
  obtain ⟨address, haddress, rfl⟩ := Option.map_eq_some_iff.1 h
  obtain ⟨hmem, howner⟩ := List.mem_filter.1 (List.mem_of_getLast? haddress)
  have howner : address.payload.userId = some user.key := of_decide_eq_true howner
  exact ⟨List.mem_map_of_mem huser, List.mem_map.2 ⟨address, hmem, by rw [howner]⟩⟩

/-- A loaded variant has its row and that of its product. -/
theorem mem_references_of_activeVariant {row : BusinessRow ℤ VariantColumns}
    (hrow : row ∈ db.productVariants) {variant : Variant}
    (h : activeVariant db row = some variant) :
    (some variant.productVariantId, some variant.productId) ∈ db.references.productVariants ∧
      ∃ shopId, (some variant.productId, shopId) ∈ db.references.products ∧
        shopId.getD 0 = variant.shopId := by
  obtain ⟨product, hproduct, h⟩ := Option.bind_eq_some_iff.1 h
  obtain ⟨-, h⟩ := Option.ite_none_right_eq_some.1 h
  obtain rfl := Option.some.inj h
  have hkey : some product.key = row.payload.productId := by simpa using List.find?_some hproduct
  exact ⟨List.mem_map.2 ⟨row, hrow, by rw [← hkey]⟩, product.payload.shopId,
    List.mem_map_of_mem (List.mem_of_find?_eq_some hproduct), rfl⟩

/-- **What has just been loaded is there.** -/
theorem loaded_of_loadState (h : loadState render db = .ok state) : Loaded db.references state := by
  obtain ⟨-, h⟩ := ensure_bind_eq_ok.1 h
  obtain ⟨⟨-, -, hvariants, -⟩, ⟨⟩⟩ := ensure_bind_eq_ok.1 h
  refine ⟨fun user huser ↦ ?_, fun variant hvariant ↦ ⟨(hvariants variant hvariant).2.2.2, ?_⟩,
    fun voucherId ↦ ?_⟩
  · obtain ⟨row, hrow, huser⟩ := List.mem_filterMap.1 huser
    exact mem_references_of_runtimeUser hrow huser
  · obtain ⟨row, hrow, hactive⟩ := List.mem_filterMap.1 hvariant
    exact mem_references_of_activeVariant hrow hactive
  · simp [OltpDatabase.references, OltpDatabase.activeVouchers]

end Load

/-! ### The amounts of an order -/

/-- What the amounts of an order need: prices are not negative, and what is drawn is in range. -/
structure AmountsDrawn (draws : OrderDraws) : Prop where
  unitPrice : ∀ line ∈ draws.lines, 0 ≤ line.variant.unitPrice
  quantity : ∀ line ∈ draws.lines, 0 < line.quantity
  discountPercent : ∀ line ∈ draws.lines, 0 ≤ line.discountPercent ∧ line.discountPercent ≤ 100
  shippingUnits : 0 ≤ draws.shippingUnits
  discountUnits : 0 ≤ draws.discountUnits

/-- What `rng` gives is in range, and loaded prices are not negative. -/
theorem amountsDrawn_of_drawn {refs : References} {state : RuntimeState} {draws : OrderDraws}
    (hloaded : Loaded refs state) (h : draws.Drawn state) : AmountsDrawn draws where
  unitPrice line hline :=
    (hloaded.variants _ (h.variants.subset (List.mem_map.2 ⟨line, hline, rfl⟩))).1
  quantity line hline := (h.quantity line hline).1
  discountPercent line hline := by
    have hall : ∀ percent ∈ ([0, 3, 5] : List ℤ), 0 ≤ percent ∧ percent ≤ 100 := by decide
    exact hall _ (h.discountPercent line hline)
  shippingUnits := by
    have hall : ∀ units ∈ ([0, 20000, 35000, 50000] : List ℤ), 0 ≤ units := by decide
    exact hall _ h.shippingUnits
  discountUnits := by
    have hall : ∀ units ∈ ([0, 20000, 50000, 80000] : List ℤ), 0 ≤ units := by decide
    exact hall _ h.discountUnits

namespace AmountsDrawn

variable {draws : OrderDraws}

/-- No amount of a line is negative. -/
theorem lineTotal_nonneg (h : AmountsDrawn draws) {line : LineDraw} (hline : line ∈ draws.lines) :
    0 ≤ line.lineTotal :=
  mul_nonneg (h.quantity line hline).le (h.unitPrice line hline)

theorem lineTax_nonneg (h : AmountsDrawn draws) {line : LineDraw} (hline : line ∈ draws.lines) :
    0 ≤ line.lineTax :=
  percentOf_nonneg (by decide) (h.lineTotal_nonneg hline)

theorem lineDiscount_nonneg (h : AmountsDrawn draws) {line : LineDraw}
    (hline : line ∈ draws.lines) : 0 ≤ line.lineDiscount :=
  percentOf_nonneg (h.discountPercent line hline).1 (h.lineTotal_nonneg hline)

/-- A line is discounted by no more than its total. -/
theorem lineDiscount_le (h : AmountsDrawn draws) {line : LineDraw} (hline : line ∈ draws.lines) :
    line.lineDiscount ≤ line.lineTotal :=
  percentOf_le (h.discountPercent line hline).2 (h.lineTotal_nonneg hline)

theorem sum_nonneg {f : LineDraw → ℤ} (hf : ∀ line ∈ draws.lines, 0 ≤ f line) :
    0 ≤ (draws.lines.map f).sum :=
  List.sum_nonneg (List.forall_mem_map.2 hf)

/-- And so are all lines together. -/
theorem lineDiscountTotal_le (h : AmountsDrawn draws) : draws.lineDiscountTotal ≤ draws.subtotal :=
  List.sum_le_sum fun _ hline ↦ h.lineDiscount_le hline

/-- The discount of the order is not negative, and leaves it something to pay or nothing. -/
theorem orderLevelDiscount_bounds (h : AmountsDrawn draws) : 0 ≤ draws.shipping ∧
    0 ≤ draws.taxTotal ∧ 0 ≤ draws.orderLevelDiscount ∧ 0 ≤ draws.total := by
  have hle := h.lineDiscountTotal_le
  have htax : 0 ≤ draws.taxTotal := sum_nonneg fun _ hline ↦ h.lineTax_nonneg hline
  have hshipping : 0 ≤ draws.shipping := mul_nonneg (by decide) h.shippingUnits
  have hunits : 0 ≤ money draws.discountUnits := mul_nonneg (by decide) h.discountUnits
  have hmin : draws.orderLevelDiscount ≤
      draws.subtotal + draws.shipping + draws.taxTotal - draws.lineDiscountTotal :=
    min_le_right _ _
  refine ⟨hshipping, htax, le_min hunits ?_, ?_⟩
  · omega
  · rw [OrderDraws.total, OrderDraws.totalDiscount]
    omega

/-- The header passes the checks of the source. -/
theorem checks_orderRow (h : AmountsDrawn draws) (orderNumber : Text) (createdAt : Timestamp) :
    (orderRow draws orderNumber createdAt).payload.Checks := by
  obtain ⟨hshipping, htax, hdiscount, htotal⟩ := h.orderLevelDiscount_bounds
  have hsubtotal : 0 ≤ draws.subtotal := sum_nonneg fun _ hline ↦ h.lineTotal_nonneg hline
  have hlines : 0 ≤ draws.lineDiscountTotal := sum_nonneg fun _ hline ↦ h.lineDiscount_nonneg hline
  rw [OrderDraws.total] at htotal
  exact ⟨hsubtotal, hshipping, htax, add_nonneg hlines hdiscount,
    show draws.totalDiscount ≤ draws.subtotal + draws.shipping + draws.taxTotal by omega⟩

/-- And so do the items. -/
theorem checks_itemRow (h : AmountsDrawn draws) (render : Rendering) (createdAt : Timestamp)
    (orderId : ℤ) {line : LineDraw} (hline : line ∈ draws.lines) :
    (itemRow render createdAt orderId line).payload.Checks := by
  have htax := h.lineTax_nonneg hline
  have hle := h.lineDiscount_le hline
  exact ⟨h.quantity line hline, h.unitPrice line hline, htax, h.lineDiscount_nonneg hline,
    show line.lineDiscount ≤ line.lineTotal + line.lineTax by omega⟩

end AmountsDrawn

/-- The texts tell a paid order from others. -/
theorem PaymentStatus.eq_paid_of_text {status : PaymentStatus}
    (h : status.text = PaymentStatus.paid.text) : status = .paid := by
  cases status with
  | paid => rfl
  | pending => exact absurd h (by decide)
  | failed => exact absurd h (by decide)

/-! ### Complete orders -/

/-- **A complete order**, with the rows that refer to it. -/
structure Complete (order : Order) (items : List OrderItem) (uses : List OrderVoucher)
    (payments : List Payment) (shipments : List Shipment) : Prop where
  items_ne : items ≠ []
  /-- The header is the sums over the items. -/
  money : MoneyConvention order.payload items
  /-- Its discount is that of the items and of the vouchers. -/
  discount : order.payload.discountAmount = some ((items.map fun item ↦ item.payload.discount).sum +
    (uses.map fun use ↦ use.payload.discountAmount.getD 0).sum)
  checks : order.payload.Checks
  itemChecks : ∀ item ∈ items, item.payload.Checks
  /-- The order number is known. -/
  orderNumber : order.payload.orderNumber.isSome = true
  /-- There is one payment, of the total, in the state of the order. -/
  payment : ∃ payment, payments = [payment] ∧
    payment.payload.amount = order.payload.totalAmount ∧
    payment.payload.paymentStatus = order.payload.paymentStatus ∧
    (payment.payload.paidAt.isSome = true ↔
      order.payload.paymentStatus = some PaymentStatus.paid.text)
  /-- There is one shipment, under the number of the order, delivered after it is shipped. -/
  shipment : ∃ shipment, shipments = [shipment] ∧ TimeOrder shipment.payload ∧
    (shipment.payload.deliveredAt.isSome = true → shipment.payload.shippedAt.isSome = true) ∧
    ∀ number ∈ shipment.payload.trackingNumber,
      some number = order.payload.orderNumber.map fun orderNumber ↦ "TRK-".toList ++ orderNumber

section Inserted

variable {render : Rendering} {state : RuntimeState} {draws : OrderDraws} {orderNumber : Text}
  {createdAt : Timestamp}

/-- The discounts of the items. -/
theorem sum_discount_itemRow (render : Rendering) (createdAt : Timestamp) (orderId : ℤ)
    (lines : List LineDraw) : ((lines.map (itemRow render createdAt orderId)).map
      fun item ↦ item.payload.discount).sum = (lines.map LineDraw.lineDiscount).sum := by
  rw [List.map_map]
  rfl

/-- With an active voucher, the discount of the order is that of its voucher. -/
theorem sum_discount_orderVoucherRows (hvouchers : state.voucherIds ≠ [])
    (hdiscount : 0 ≤ draws.orderLevelDiscount) : ((orderVoucherRows state draws createdAt).map
      fun use ↦ use.payload.discountAmount.getD 0).sum = draws.orderLevelDiscount := by
  rw [orderVoucherRows]
  by_cases hpos : 0 < draws.orderLevelDiscount
  · rw [if_pos ⟨hpos, hvouchers⟩]
    simp
  · rw [if_neg fun h ↦ hpos h.1]
    exact le_antisymm hdiscount (not_lt.1 hpos)

/-- A delivery is drawn after its shipping. -/
theorem timeOrder_shipmentRow (hdays : ∀ days ∈ draws.deliveryDays, 1 ≤ days) :
    TimeOrder (shipmentRow draws orderNumber createdAt).payload := by
  intro shipped hshipped delivered hdelivered
  have hshipped : shippedAt draws createdAt = some shipped := hshipped
  have hdelivered : deliveredAt draws createdAt = some delivered := hdelivered
  rw [deliveredAt, hshipped, Option.bind_some] at hdelivered
  obtain ⟨days, hmem, rfl⟩ := Option.map_eq_some_iff.1 hdelivered
  have hpos : 0 ≤ days * day := mul_nonneg (by linarith [hdays days hmem]) (by decide)
  exact le_add_of_nonneg_right hpos

/-- **An inserted order is complete.** -/
theorem complete_inserted (hdrawn : AmountsDrawn draws) (hlines : draws.lines ≠ [])
    (hdays : ∀ days ∈ draws.deliveryDays, 1 ≤ days) (hvouchers : state.voucherIds ≠ []) :
    Complete (orderRow draws orderNumber createdAt)
      (draws.lines.map (itemRow render createdAt draws.orderId))
      (orderVoucherRows state draws createdAt) [paymentRow draws createdAt]
      [shipmentRow draws orderNumber createdAt] where
  items_ne := by simpa using hlines
  money := by
    refine ⟨List.forall_mem_map.2 fun line _ ↦ ⟨rfl, rfl, rfl, rfl⟩, ?_, ?_, rfl, rfl, ?_⟩
    · rw [List.map_map]
      rfl
    · rw [List.map_map]
      rfl
    · show some draws.total =
        some (draws.subtotal + draws.taxTotal + draws.shipping - draws.totalDiscount)
      rw [OrderDraws.total, add_right_comm]
  discount := by
    rw [sum_discount_itemRow, sum_discount_orderVoucherRows hvouchers
      hdrawn.orderLevelDiscount_bounds.2.2.1]
    rfl
  checks := hdrawn.checks_orderRow orderNumber createdAt
  itemChecks := List.forall_mem_map.2 fun _ hline ↦
    hdrawn.checks_itemRow render createdAt draws.orderId hline
  orderNumber := rfl
  payment := by
    refine ⟨_, rfl, rfl, rfl, ?_⟩
    show (if draws.paymentStatus = .paid then _ else _ : Option Timestamp).isSome = true ↔
      some draws.paymentStatus.text = some PaymentStatus.paid.text
    split
    · simp [*]
    · exact ⟨fun h ↦ absurd h (by simp),
        fun h ↦ absurd (PaymentStatus.eq_paid_of_text (Option.some.inj h)) ‹_›⟩
  shipment := by
    refine ⟨_, rfl, timeOrder_shipmentRow hdays, fun hdelivered ↦ ?_, fun number hnumber ↦ ?_⟩
    · obtain ⟨delivered, hdelivered⟩ := Option.isSome_iff_exists.1 hdelivered
      obtain ⟨shipped, hshipped, -⟩ := Option.bind_eq_some_iff.1 hdelivered
      exact Option.isSome_iff_exists.2 ⟨shipped, hshipped⟩
    · obtain ⟨-, -, rfl⟩ := Option.map_eq_some_iff.1 hnumber
      rfl

end Inserted

end LakehousePipeline.Generator
