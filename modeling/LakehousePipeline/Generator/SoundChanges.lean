import LakehousePipeline.Generator.Soundness

/-!
# What change events keep

Each part of a batch of changes keeps the database sound: the updates of single rows change no key
and no reference, an order that moves on stays complete, a delete takes everything of the order with
it, and the delete marker is replaced by the new one.

## What can be refused

Under the invariant three of the parts can be refused, each for one reason.

* `update_product_variant`, if a new number leaves the range of its column
  (`updateProductVariant_eq_ok_iff`). Its `CHECK`s pass: the new price is not negative, and the
  price it is compared with is raised to it.
* `advance_order`, if the shipment would be delivered before it is shipped
  (`advanceTo_eq_ok_iff`).
* `rotate_delete_marker_voucher`, if the key of the new voucher is taken
  (`rotateDeleteMarkerVoucher_eq_ok_iff`). Its code is new, as the code of another voucher with it
  would make that voucher a marker too, and the marker there was has just been deleted.

`update_category` raises of itself where there is no category. The other updates and the delete
always succeed.

## How a batch is put together

Each part has a pure function for the database it leaves (`updatedRows`, `moved`,
`deleteBaselineOrder`, `withMarker`), and `changed` composes them. `applyChangeEvents_eq_ok_iff`
says when the program ends in `changed`, and `sound_changed` that `changed` is sound then. The two
are apart because a run needs the second and the question of what is refused the first.

An update leaves what the rows of orders refer to (`UpdatesRows`), so an order that was complete
stays so without a look at its rows. Only `advance_order` touches rows of orders, and only those of
one order: the others are compared with `paymentsOf_advanced_of_ne` and
`shipmentsOf_advanced_of_ne`.
-/

namespace LakehousePipeline.Generator

open Checks KeyedTables

variable {db db' : OltpDatabase}

/-! ### Updates of the other tables -/

section Updates

variable {state : RuntimeState} {draws : ChangeDraws} {changedAt : Timestamp}

/-- The tables of orders are the same. -/
structure SameOrders (db db' : OltpDatabase) : Prop where
  orders : db'.orders = db.orders
  orderItems : db'.orderItems = db.orderItems
  orderVouchers : db'.orderVouchers = db.orderVouchers
  payments : db'.payments = db.payments
  shipments : db'.shipments = db.shipments

/-- Orders stay complete where their tables are the same. -/
theorem OltpDatabase.CompleteOrders.of_sameOrders (h : db.CompleteOrders)
    (hsame : SameOrders db db') : db'.CompleteOrders := by
  obtain ⟨hitems, huses, hpayments, hshipments, hcomplete⟩ := h
  constructor
  · rwa [hsame.orders, hsame.orderItems]
  · rwa [hsame.orders, hsame.orderVouchers]
  · rwa [hsame.orders, hsame.payments]
  · rwa [hsame.orders, hsame.shipments]
  · rw [hsame.orders]
    intro order horder
    have hof := hcomplete order horder
    rwa [OltpDatabase.itemsOf, OltpDatabase.usesOf, OltpDatabase.paymentsOf,
      OltpDatabase.shipmentsOf, ← hsame.orderItems, ← hsame.orderVouchers, ← hsame.payments,
      ← hsame.shipments] at hof

/-- And what they refer to stays there, where the references are. -/
theorem OltpDatabase.Linked.of_sameOrders (h : db.Linked) (hsame : SameOrders db db')
    (hrefs : db'.references = db.references) : db'.Linked := by
  obtain ⟨hcustomer, hproduct, hvoucher⟩ := h
  constructor
  · rwa [hsame.orders, hrefs]
  · rwa [hsame.orderItems, hrefs]
  · rwa [hsame.orderVouchers, hrefs]

/-- **An update of rows of the other tables**: the rows fit their tables still, and it keeps the
references and the checks of the variants. -/
structure UpdatesRows (db db' : OltpDatabase) : Prop where
  same : SameOrders db db'
  vouchers : db'.vouchers = db.vouchers
  tables : ∀ t, TableFits (db.rows t) → TableFits (db'.rows t)
  references : db'.references = db.references
  variants : (∀ row ∈ db.productVariants, VariantChecks row.payload) →
    ∀ row ∈ db'.productVariants, VariantChecks row.payload

/-- Updates one after the other. -/
theorem UpdatesRows.trans {db'' : OltpDatabase} (h : UpdatesRows db db')
    (h' : UpdatesRows db' db'') : UpdatesRows db db'' where
  same := ⟨h'.same.orders.trans h.same.orders, h'.same.orderItems.trans h.same.orderItems,
    h'.same.orderVouchers.trans h.same.orderVouchers, h'.same.payments.trans h.same.payments,
    h'.same.shipments.trans h.same.shipments⟩
  vouchers := h'.vouchers.trans h.vouchers
  tables t hfits := h'.tables t (h.tables t hfits)
  references := h'.references.trans h.references
  variants hvariants := h'.variants (h.variants hvariants)

/-- **An update of other rows keeps the database sound.** -/
theorem OltpDatabase.Sound.of_updatesRows (h : db.Sound) (hupdates : UpdatesRows db db') :
    db'.Sound where
  fits := by
    refine ⟨fun t ↦ ?_, ?_⟩
    · exact hupdates.tables t (h.fits.tables t)
    · rw [hupdates.same.orders]
      exact h.fits.orderNumbers
  orders := h.orders.of_sameOrders hupdates.same
  linked := h.linked.of_sameOrders hupdates.same hupdates.references
  catalog := by
    refine ⟨fun product hproduct ↦ ?_, hupdates.variants h.catalog.variants, ?_, ?_⟩
    · have hmem : (some product.key, product.payload.shopId) ∈ db'.references.products :=
        List.mem_map_of_mem hproduct
      rw [hupdates.references] at hmem ⊢
      obtain ⟨old, hold, heq⟩ := List.mem_map.1 hmem
      obtain ⟨-, hshop⟩ := Prod.mk.inj heq
      exact hshop ▸ h.catalog.shop old hold
    · rw [OltpDatabase.activeVouchers, hupdates.vouchers]
      exact h.catalog.voucher
    · rw [hupdates.vouchers]
      exact h.catalog.marker

/-- A customer gets another phone number, and the address another street. -/
theorem updatesRows_updateCustomer : UpdatesRows db (updateCustomer draws changedAt db) where
  same := ⟨rfl, rfl, rfl, rfl, rfl⟩
  vouchers := rfl
  tables t h := by
    cases t <;> first
      | exact h
      | exact h.updateWhere (fun _ ↦ rfl) (fun _ ↦ rfl) fun _ _ _ hrange ↦ hrange
  references := References.ext (map_updateWhere fun _ ↦ rfl) (map_updateWhere fun _ ↦ rfl)
    rfl rfl rfl rfl
  variants h := h

/-- The new price is one, and not above the price it is compared with. -/
theorem variantChecks_repriced (hprice : 0 ≤ draws.variant.unitPrice)
    (hpercent : 0 ≤ draws.pricePercent) (row : BusinessRow ℤ VariantColumns) :
    VariantChecks (repriced draws changedAt row).payload where
  unitPrice := percentOf_nonneg hpercent hprice
  compareAtPrice price hmem := by
    obtain ⟨old, -, rfl⟩ := Option.map_eq_some_iff.1 hmem
    exact le_max_right _ _
  stockQuantity := by
    show 0 ≤ (row.payload.stockQuantity.map fun stock ↦ max (stock + draws.stockChange) 0).getD 0
    cases row.payload.stockQuantity with
    | none => exact le_rfl
    | some stock => exact le_max_right _ _

/-- A variant gets another price and another stock. -/
theorem updatesRows_repricedVariant (hprice : 0 ≤ draws.variant.unitPrice)
    (hpercent : 0 ≤ draws.pricePercent) (hrange : RepricedInRange draws changedAt db) :
    UpdatesRows db (repricedVariant draws changedAt db) where
  same := ⟨rfl, rfl, rfl, rfl, rfl⟩
  vouchers := rfl
  tables t h := by
    cases t <;> first
      | exact h
      | exact h.updateWhere (fun _ ↦ rfl) (fun _ ↦ rfl) fun row hrow hkey _ ↦
          hrange row hrow (of_decide_eq_true hkey)
  references := References.ext rfl rfl rfl rfl (map_updateWhere fun _ ↦ rfl) rfl
  variants h := forall_mem_updateWhere h fun row _ _ _ ↦ variantChecks_repriced hprice hpercent row

/-- **What `update_product_variant` does**: it is refused only for the range of a number. -/
theorem updateProductVariant_eq_ok_iff (hprice : 0 ≤ draws.variant.unitPrice)
    (hpercent : 0 ≤ draws.pricePercent) : updateProductVariant draws changedAt db = .ok db' ↔
      RepricedInRange draws changedAt db ∧ db' = repricedVariant draws changedAt db := by
  rw [updateProductVariant, ensure_bind_eq_ok, ensure_bind_eq_ok]
  refine and_congr_right fun _ ↦ ?_
  constructor
  · rintro ⟨-, ⟨⟩⟩
    rfl
  · rintro rfl
    exact ⟨fun row _ _ ↦ variantChecks_repriced hprice hpercent row, rfl⟩

/-- A product is featured, or no longer. -/
theorem updatesRows_updateProduct : UpdatesRows db (updateProduct draws changedAt db) where
  same := ⟨rfl, rfl, rfl, rfl, rfl⟩
  vouchers := rfl
  tables t h := by
    cases t <;> first
      | exact h
      | exact h.updateWhere (fun _ ↦ rfl) (fun _ ↦ rfl) fun _ _ _ hrange ↦ hrange
  references := References.ext rfl rfl rfl (map_updateWhere fun _ ↦ rfl) rfl rfl
  variants h := h

/-- A shop is renamed. -/
theorem updatesRows_updateShop : UpdatesRows db (updateShop draws changedAt db) where
  same := ⟨rfl, rfl, rfl, rfl, rfl⟩
  vouchers := rfl
  tables t h := by
    cases t <;> first
      | exact h
      | exact h.updateWhere (fun _ ↦ rfl) (fun _ ↦ rfl) fun _ _ _ hrange ↦ hrange
  references := References.ext rfl rfl (map_updateWhere fun _ ↦ rfl) rfl rfl rfl
  variants h := h

/-- A category is switched on or off. -/
theorem updatesRows_updatedCategory : UpdatesRows db (updatedCategory draws changedAt db) where
  same := ⟨rfl, rfl, rfl, rfl, rfl⟩
  vouchers := rfl
  tables t h := by
    cases t <;> first
      | exact h
      | exact h.updateWhere (fun _ ↦ rfl) (fun _ ↦ rfl) fun _ _ _ hrange ↦ hrange
  references := rfl
  variants h := h

/-- The updates a batch begins with. -/
def updatedRows (draws : ChangeDraws) (changedAt : Timestamp) (db : OltpDatabase) : OltpDatabase :=
  updatedCategory draws changedAt (updateShop draws changedAt (updateProduct draws changedAt
    (repricedVariant draws changedAt (updateCustomer draws changedAt db))))

/-- The price that is drawn for a variant is not negative. -/
theorem ChangeDraws.Drawn.price_nonneg {refs : References} (hloaded : Loaded refs state)
    {seen : OltpDatabase} (h : draws.Drawn seen state) :
    0 ≤ draws.variant.unitPrice ∧ 0 ≤ draws.pricePercent := by
  have hpercents : ∀ percent ∈ ([98, 101, 103] : List ℤ), 0 ≤ percent := by decide
  exact ⟨(hloaded.variants _ h.variant).1, hpercents _ h.pricePercent⟩

/-- All of them together. -/
theorem updatesRows_updatedRows {refs : References} (hloaded : Loaded refs state)
    {seen : OltpDatabase} (hdrawn : draws.Drawn seen state)
    (hrange : RepricedInRange draws changedAt db) :
    UpdatesRows db (updatedRows draws changedAt db) := by
  obtain ⟨hprice, hpercent⟩ := hdrawn.price_nonneg hloaded
  have hvariant : UpdatesRows (updateCustomer draws changedAt db)
      (repricedVariant draws changedAt (updateCustomer draws changedAt db)) :=
    updatesRows_repricedVariant hprice hpercent hrange
  exact (((updatesRows_updateCustomer.trans hvariant).trans updatesRows_updateProduct).trans
    updatesRows_updateShop).trans updatesRows_updatedCategory

end Updates

/-! ### An order moves on -/

section Advance

variable {orderId : ℤ} {status : OrderStatus} {changedAt : Timestamp}

/-- The database after the three updates. -/
def advanced (orderId : ℤ) (status : OrderStatus) (changedAt : Timestamp) (db : OltpDatabase) :
    OltpDatabase :=
  { db with
    orders := updateWhere (fun row : Order ↦ row.key = orderId) (advancedOrder status changedAt)
      db.orders
    payments := updateWhere (fun row : Payment ↦ row.payload.orderId = orderId)
      (advancedPayment status changedAt) db.payments
    shipments := updateWhere (fun row : Shipment ↦ row.payload.orderId = orderId)
      (advancedShipment status changedAt) db.shipments }

/-- A shipment that is delivered too early: it is to be shipped later than now. -/
def DeliveredEarly (status : OrderStatus) (changedAt : Timestamp) (c : ShipmentColumns) : Prop :=
  shipmentStatus status = .delivered ∧ c.deliveredAt = none ∧
    ∃ shipped ∈ c.shippedAt, changedAt < shipped

instance (c : ShipmentColumns) : Decidable (DeliveredEarly status changedAt c) :=
  inferInstanceAs (Decidable (_ ∧ _ ∧ ∃ shipped ∈ c.shippedAt, _))

/-- The times of a shipment stay in order unless it is delivered too early. -/
theorem timeOrder_advancedShipment_iff {shipment : Shipment} (htime : TimeOrder shipment.payload)
    (hshipped : shipment.payload.deliveredAt.isSome = true →
      shipment.payload.shippedAt.isSome = true) :
    TimeOrder (advancedShipment status changedAt shipment).payload ↔
      ¬DeliveredEarly status changedAt shipment.payload := by
  have hnone : shipment.payload.shippedAt = none → shipment.payload.deliveredAt = none := by
    intro hnot
    by_contra hdelivered
    have hsome := hshipped (Option.isSome_iff_ne_none.2 hdelivered)
    rw [hnot] at hsome
    cases hsome
  rw [TimeOrder] at htime
  show (∀ shipped ∈ (if shipmentStatus status = .inTransit ∨ shipmentStatus status = .delivered
      then shipment.payload.shippedAt.or (some changedAt) else shipment.payload.shippedAt),
    ∀ delivered ∈ (if shipmentStatus status = .delivered
      then shipment.payload.deliveredAt.or (some changedAt) else shipment.payload.deliveredAt),
    shipped ≤ delivered) ↔ _
  by_cases hnext : shipmentStatus status = .delivered
  · rw [if_pos (Or.inr hnext), if_pos hnext]
    cases hship : shipment.payload.shippedAt with
    | none => simp [DeliveredEarly, hship, hnone hship]
    | some shipped =>
      rw [hship] at htime
      cases hdeliver : shipment.payload.deliveredAt with
      | none => simp [DeliveredEarly, hnext, hship, hdeliver]
      | some delivered =>
        rw [hdeliver] at htime
        simpa [DeliveredEarly, hdeliver] using htime
  · have hnot : ¬DeliveredEarly status changedAt shipment.payload := fun h ↦ hnext h.1
    rw [if_neg hnext, iff_true_right hnot]
    cases hship : shipment.payload.shippedAt with
    | none => simp [hnone hship]
    | some shipped =>
      rw [hship] at htime
      rw [Option.some_or, ite_self]
      exact htime

/-- **What `advance_order` does to an order**: three updates, unless the shipment would be delivered
before it is shipped. -/
theorem advanceTo_eq_ok_iff (horders : db.CompleteOrders) :
    advanceTo db orderId status changedAt = .ok db' ↔
      (∀ shipment ∈ db.shipmentsOf orderId, ¬DeliveredEarly status changedAt shipment.payload) ∧
        db' = advanced orderId status changedAt db := by
  -- a complete order has one shipment, whose times are in order
  have hiff : ∀ shipment ∈ db.shipmentsOf orderId,
      (TimeOrder (advancedShipment status changedAt shipment).payload ↔
        ¬DeliveredEarly status changedAt shipment.payload) := by
    intro shipment hshipment
    obtain ⟨hmem, hkey⟩ := mem_childrenOf.1 hshipment
    obtain ⟨order, horder, horderKey⟩ := horders.shipments shipment hmem
    obtain ⟨only, honly, htime, hshipped, -⟩ := (horders.complete order horder).shipment
    have hof : shipment ∈ db.shipmentsOf order.key := mem_childrenOf.2 ⟨hmem, horderKey.symm⟩
    rw [honly] at hof
    obtain rfl := List.mem_singleton.1 hof
    exact timeOrder_advancedShipment_iff htime hshipped
  have hcheck : (∀ row ∈ updateWhere (fun row : Shipment ↦ row.payload.orderId = orderId)
      (advancedShipment status changedAt) db.shipments, row.payload.orderId = orderId →
        TimeOrder row.payload) ↔
      ∀ shipment ∈ db.shipmentsOf orderId, ¬DeliveredEarly status changedAt shipment.payload := by
    constructor
    · intro h shipment hshipment
      obtain ⟨hmem, hkey⟩ := mem_childrenOf.1 hshipment
      refine (hiff shipment hshipment).1 (h _ (List.mem_map.2 ⟨shipment, hmem, ?_⟩) hkey)
      exact if_pos (decide_eq_true hkey)
    · intro h row hrow hkey
      obtain ⟨old, hold, rfl⟩ := mem_updateWhere hrow
      by_cases hof : decide (old.payload.orderId = orderId) = true
      · have hmem : old ∈ db.shipmentsOf orderId :=
          mem_childrenOf.2 ⟨hold, of_decide_eq_true hof⟩
        rw [if_pos hof]
        exact (hiff old hmem).2 (h old hmem)
      · rw [if_neg hof] at hkey
        exact absurd (decide_eq_true hkey) hof
  rw [advanceTo, ensure_bind_eq_ok, hcheck]
  refine and_congr_right fun _ ↦ ?_
  constructor
  · rintro ⟨⟩
    rfl
  · rintro rfl
    rfl

/-- An order that moves on stays complete. -/
theorem Complete.advance {order : Order} {items : List OrderItem} {uses : List OrderVoucher}
    {payments : List Payment} {shipments : List Shipment}
    (h : Complete order items uses payments shipments) (hstatus : status ≠ .pendingPayment)
    (hearly : ∀ shipment ∈ shipments, ¬DeliveredEarly status changedAt shipment.payload) :
    Complete (advancedOrder status changedAt order) items uses
      (payments.map (advancedPayment status changedAt))
      (shipments.map (advancedShipment status changedAt)) where
  items_ne := h.items_ne
  money := ⟨h.money.lines_hasAmounts, h.money.subtotal, h.money.tax, h.money.shipping,
    h.money.discount, h.money.total⟩
  discount := h.discount
  checks := ⟨h.checks.1, h.checks.2, h.checks.3, h.checks.4, h.checks.5⟩
  itemChecks := h.itemChecks
  orderNumber := h.orderNumber
  payment := by
    obtain ⟨payment, rfl, hamount, -, -⟩ := h.payment
    have hpaid : paymentStatusOf status = .paid := if_pos hstatus
    refine ⟨_, rfl, hamount, rfl, ?_⟩
    show (if paymentStatusOf status = .paid then payment.payload.paidAt.or (some changedAt)
      else payment.payload.paidAt).isSome = true ↔
        some (paymentStatusOf status).text = some PaymentStatus.paid.text
    simp [hpaid]
  shipment := by
    obtain ⟨shipment, rfl, htime, hshipped, htracking⟩ := h.shipment
    refine ⟨_, rfl, (timeOrder_advancedShipment_iff htime hshipped).2
      (hearly shipment (List.mem_singleton_self _)), ?_, htracking⟩
    show (if shipmentStatus status = .delivered
        then shipment.payload.deliveredAt.or (some changedAt)
        else shipment.payload.deliveredAt).isSome = true →
      (if shipmentStatus status = .inTransit ∨ shipmentStatus status = .delivered
        then shipment.payload.shippedAt.or (some changedAt)
        else shipment.payload.shippedAt).isSome = true
    by_cases hnext : shipmentStatus status = .delivered
    · simp [hnext]
    · rw [if_neg hnext]
      intro hdelivered
      split
      · simp
      · exact hshipped hdelivered

/-- The payments of the order that moves on. -/
theorem paymentsOf_advanced : (advanced orderId status changedAt db).paymentsOf orderId =
    (db.paymentsOf orderId).map (advancedPayment status changedAt) :=
  childrenOf_updateWhere fun _ ↦ rfl

/-- And its shipments. -/
theorem shipmentsOf_advanced : (advanced orderId status changedAt db).shipmentsOf orderId =
    (db.shipmentsOf orderId).map (advancedShipment status changedAt) :=
  childrenOf_updateWhere fun _ ↦ rfl

/-- Other orders keep their payments. -/
theorem paymentsOf_advanced_of_ne {other : ℤ} (hne : other ≠ orderId) :
    (advanced orderId status changedAt db).paymentsOf other = db.paymentsOf other :=
  childrenOf_updateWhere_of_ne hne fun _ ↦ rfl

/-- And their shipments. -/
theorem shipmentsOf_advanced_of_ne {other : ℤ} (hne : other ≠ orderId) :
    (advanced orderId status changedAt db).shipmentsOf other = db.shipmentsOf other :=
  childrenOf_updateWhere_of_ne hne fun _ ↦ rfl

/-- All orders stay complete, the one that moves on among them. -/
theorem completeOrders_advanced (h : db.CompleteOrders) (hstatus : status ≠ .pendingPayment)
    (hearly : ∀ shipment ∈ db.shipmentsOf orderId,
      ¬DeliveredEarly status changedAt shipment.payload) :
    (advanced orderId status changedAt db).CompleteOrders := by
  have hsame : ((advanced orderId status changedAt db).orders.map fun row ↦ row.key) =
      db.orders.map fun row ↦ row.key := map_updateWhere fun _ ↦ rfl
  have hkeys : ∀ order ∈ db.orders, order.key ∈
      (advanced orderId status changedAt db).orders.map fun row ↦ row.key := by
    rw [hsame]
    exact fun order ↦ List.mem_map_of_mem
  refine ⟨h.items.of_keys hkeys, h.uses.of_keys hkeys,
    (h.payments.of_keys hkeys).updateWhere fun _ ↦ rfl,
    (h.shipments.of_keys hkeys).updateWhere fun _ ↦ rfl, fun order horder ↦ ?_⟩
  obtain ⟨old, hold, rfl⟩ := mem_updateWhere horder
  have hcomplete := h.complete old hold
  by_cases hkey : old.key = orderId
  · subst hkey
    rw [if_pos (decide_eq_true rfl)]
    show Complete _ _ _ ((advanced old.key status changedAt db).paymentsOf old.key)
      ((advanced old.key status changedAt db).shipmentsOf old.key)
    rw [paymentsOf_advanced, shipmentsOf_advanced]
    exact hcomplete.advance hstatus hearly
  · rw [if_neg fun hof ↦ hkey (of_decide_eq_true hof), paymentsOf_advanced_of_ne hkey,
      shipmentsOf_advanced_of_ne hkey]
    exact hcomplete

/-- **An order that moves on keeps the database sound.** -/
theorem sound_advanced (h : db.Sound) (hstatus : status ≠ .pendingPayment)
    (hearly : ∀ shipment ∈ db.shipmentsOf orderId,
      ¬DeliveredEarly status changedAt shipment.payload) :
    (advanced orderId status changedAt db).Sound where
  fits := by
    refine ⟨fun t ↦ ?_, ?_⟩
    · have hfits := h.fits.tables t
      cases t <;> first
        | exact hfits
        | exact hfits.updateWhere (fun _ ↦ rfl) (fun _ ↦ rfl) fun _ _ _ hrange ↦ hrange
    · have hsame : ((advanced orderId status changedAt db).orders.map
          fun order ↦ order.payload.orderNumber) =
          db.orders.map fun order ↦ order.payload.orderNumber := map_updateWhere fun _ ↦ rfl
      rw [hsame]
      exact h.fits.orderNumbers
  orders := completeOrders_advanced h.orders hstatus hearly
  linked := by
    refine ⟨?_, h.linked.product, h.linked.voucher⟩
    exact forall_mem_updateWhere h.linked.customer fun order _ _ hcustomer ↦
      ⟨hcustomer.user, hcustomer.shippingAddress, hcustomer.billingAddress⟩
  catalog := ⟨h.catalog.shop, h.catalog.variants, h.catalog.voucher, h.catalog.marker⟩

/-- No order moves back to waiting for its payment. -/
theorem nextOrderStatus_ne_pendingPayment : nextOrderStatus status ≠ .pendingPayment := by
  cases status <;> decide

end Advance

/-! ### A seeded order is deleted -/

/-- **A delete takes everything of the order with it**, and leaves a sound database. -/
theorem sound_deleteOrder (h : db.Sound) (orderId : ℤ) : (deleteOrder db orderId).Sound where
  fits := by
    refine ⟨fun t ↦ (h.fits.tables t).sublist ?_,
      h.fits.orderNumbers.sublist (List.filter_sublist.map _)⟩
    cases t <;> first | exact List.filter_sublist | exact List.Sublist.refl _
  orders := by
    refine ⟨h.orders.items.cascade orderId, h.orders.uses.cascade orderId,
      h.orders.payments.cascade orderId, h.orders.shipments.cascade orderId, ?_⟩
    intro order horder
    obtain ⟨hmem, hne⟩ := List.mem_filter.1 horder
    have hne : order.key ≠ orderId := of_decide_eq_true hne
    rw [OltpDatabase.itemsOf, OltpDatabase.usesOf, OltpDatabase.paymentsOf,
      OltpDatabase.shipmentsOf, deleteOrder, childrenOf_cascade hne, childrenOf_cascade hne,
      childrenOf_cascade hne, childrenOf_cascade hne]
    exact h.orders.complete order hmem
  linked := ⟨fun order horder ↦ h.linked.customer order (List.mem_of_mem_filter horder),
    fun item hitem ↦ h.linked.product item (List.mem_of_mem_filter hitem),
    fun use huse ↦ h.linked.voucher use (List.mem_of_mem_filter huse)⟩
  catalog := ⟨h.catalog.shop, h.catalog.variants, h.catalog.voucher, h.catalog.marker⟩

/-! ### The delete marker is replaced -/

section Marker

variable {render : Rendering} {markerId : ℤ} {changedAt : Timestamp}

/-- The new voucher is a delete marker. -/
theorem isDeleteMarker_markerRow (suffix : Text) :
    isDeleteMarker (markerRow markerId changedAt suffix) = true := by
  have hprefix : deleteMarkerPrefix ++ suffix =
      'C' :: 'D' :: 'C' :: '_' :: 'D' :: 'E' :: 'L' :: 'E' :: 'T' :: 'E' :: '_' :: suffix := rfl
  have hlength : deleteMarkerPrefix.length = 11 := rfl
  rw [isDeleteMarker, markerRow, Option.any_some, hprefix]
  simp [hlength]

/-- **The delete marker is the one that is deleted**, since no order uses it. -/
theorem firstMarker_eq (h : db.Sound) : ∃ marker, firstMarker db = some marker ∧
    (db.vouchers.filter fun voucher ↦ voucher.key ≠ marker.key) =
      db.vouchers.filter fun voucher ↦ !isDeleteMarker voucher := by
  obtain ⟨marker, hmarker, hinactive⟩ := h.catalog.marker
  have hmem : marker ∈ db.vouchers.filter isDeleteMarker := by simp [hmarker]
  obtain ⟨hin, his⟩ := List.mem_filter.1 hmem
  have hkeys := List.inj_on_of_nodup_map (h.fits.keys .vouchers)
  refine ⟨marker, ?_, List.filter_congr fun voucher hvoucher ↦ ?_⟩
  · have hunused : (db.orderVouchers.all fun use ↦ use.payload.voucherId ≠ some marker.key) =
        true := by
      refine List.all_eq_true.2 fun use huse ↦ decide_eq_true fun heq ↦ ?_
      obtain ⟨active, hactive, hkey⟩ := List.mem_map.1 (h.linked.voucher use huse)
      obtain ⟨hactiveMem, hisActive⟩ := List.mem_filter.1 hactive
      obtain rfl := hkeys hactiveMem hin (Option.some.inj (hkey.trans heq))
      rw [hinactive] at hisActive
      cases hisActive
    have hfilter : (db.vouchers.filter fun voucher ↦ isDeleteMarker voucher &&
        db.orderVouchers.all fun use ↦ use.payload.voucherId ≠ some voucher.key) = [marker] := by
      rw [← List.filter_filter, List.filter_comm, hmarker]
      exact List.filter_cons_of_pos hunused
    rw [firstMarker, hfilter]
    rfl
  · have hiff : isDeleteMarker voucher = true ↔ voucher.key = marker.key := by
      constructor
      · intro hof
        have hone : voucher ∈ [marker] := hmarker ▸ List.mem_filter.2 ⟨hvoucher, hof⟩
        rw [List.mem_singleton.1 hone]
      · intro hkey
        rw [hkeys hvoucher hin hkey]
        exact his
    by_cases hof : isDeleteMarker voucher = true
    · simp [hof, hiff.1 hof]
    · simp [hof, mt hiff.2 hof]

/-- The database with another delete marker. -/
def withMarker (marker : Voucher) (db : OltpDatabase) : OltpDatabase :=
  { db with vouchers := (db.vouchers.filter fun voucher ↦ !isDeleteMarker voucher) ++ [marker] }

/-- Its numbers are in range. -/
theorem inRange_markerRow (suffix : Text) :
    InRange .vouchers (markerRow markerId changedAt suffix).payload := by
  show ∀ column ∈ [(decimalLimit, some (money 1000)), (decimalLimit, none),
    (decimalLimit, some 0)], ∀ n ∈ column.2, n < column.1
  decide

/-- The code of the new marker is new: any voucher with it would be a marker. -/
theorem checkVoucher_markerRow (suffix : Text)
    (hnone : ∀ voucher ∈ db.vouchers, isDeleteMarker voucher = false) :
    db.checkVoucher (markerRow markerId changedAt suffix) = .ok () := by
  refine checkColumns_bind_eq_ok.2 ⟨⟨inRange_markerRow suffix, by rintro id ⟨⟩⟩, ?_⟩
  rw [ensure_bind_eq_ok, ensure_eq_ok]
  have hvalue : 0 ≤ money 1000 := by decide
  refine ⟨⟨hvalue, le_rfl, le_rfl, ?_, Or.inl rfl⟩, fun hmem ↦ ?_⟩
  · intro starts hstarts ends hends
    obtain rfl := Option.some.inj hstarts
    obtain rfl := Option.some.inj hends
    have hday : (0 : ℤ) < day := by decide
    linarith
  · obtain ⟨old, hold, hcode⟩ := List.mem_map.1 hmem
    have hmarker : isDeleteMarker (markerRow markerId changedAt suffix) = true :=
      isDeleteMarker_markerRow suffix
    -- a voucher with this code would be a marker itself
    rw [isDeleteMarker, ← hcode] at hmarker
    have hnot := hnone old hold
    rw [isDeleteMarker, hmarker] at hnot
    cases hnot

/-- It fits the schema if its key is new. -/
theorem fitsSchema_withMarker_iff (h : db.FitsSchema) {marker : Voucher}
    (hrange : InRange .vouchers marker.payload) :
    (withMarker marker db).FitsSchema ↔ marker.key ∉
      (db.vouchers.filter fun voucher ↦ !isDeleteMarker voucher).map fun voucher ↦ voucher.key := by
  constructor
  · exact fun hfits ↦ (nodup_map_append_singleton.1 (hfits.keys .vouchers)).2
  · intro hnew
    refine ⟨fun t ↦ ?_, h.orderNumbers⟩
    cases t with
    | vouchers =>
      exact tableFits_append_singleton.2
        ⟨(h.tables .vouchers).sublist List.filter_sublist, hnew, hrange, by rintro id ⟨⟩⟩
    | appUsers => exact h.tables .appUsers
    | userAddresses => exact h.tables .userAddresses
    | shops => exact h.tables .shops
    | categories => exact h.tables .categories
    | products => exact h.tables .products
    | productVariants => exact h.tables .productVariants
    | orders => exact h.tables .orders
    | orderItems => exact h.tables .orderItems
    | orderVouchers => exact h.tables .orderVouchers
    | payments => exact h.tables .payments
    | shipments => exact h.tables .shipments

/-- **What `rotate_delete_marker_voucher` does.** -/
theorem rotateDeleteMarkerVoucher_eq_ok_iff (h : db.Sound) :
    rotateDeleteMarkerVoucher render db markerId changedAt = .ok db' ↔
      db'.FitsSchema ∧
        db' = withMarker (markerRow markerId changedAt (render.stamp changedAt)) db := by
  obtain ⟨marker, hmarker, hrest⟩ := firstMarker_eq h
  rw [rotateDeleteMarkerVoucher, hmarker]
  show insertVoucher { db with vouchers := db.vouchers.filter _ } _ = _ ↔ _
  rw [hrest, insertVoucher, bind_eq_ok]
  constructor
  · rintro ⟨_, hrow, ⟨⟩⟩
    obtain ⟨hnew, -, rfl⟩ := insertRow_eq_ok_iff.1 hrow
    exact ⟨(fitsSchema_withMarker_iff h.fits (inRange_markerRow _)).2 hnew, rfl⟩
  · rintro ⟨hfits, rfl⟩
    have hnew := (fitsSchema_withMarker_iff h.fits (inRange_markerRow _)).1 hfits
    refine ⟨_, insertRow_eq_ok_iff.2
      ⟨hnew, checkVoucher_markerRow _ fun voucher hvoucher ↦ ?_, rfl⟩, rfl⟩
    simpa using (List.mem_filter.1 hvoucher).2

/-- The vouchers that can be used stay the same. -/
theorem activeVouchers_withMarker (h : db.SoundCatalog) {marker : Voucher}
    (hinactive : marker.payload.isActive = some false) :
    (withMarker marker db).activeVouchers = db.activeVouchers := by
  obtain ⟨old, hold, holdInactive⟩ := h.marker
  rw [OltpDatabase.activeVouchers, withMarker, List.filter_append, List.filter_filter]
  have hnew : ([marker].filter fun voucher ↦ voucher.payload.isActive = some true) = [] := by
    simp [hinactive]
  rw [hnew, List.append_nil]
  refine List.filter_congr fun voucher hvoucher ↦ ?_
  by_cases hmarker : isDeleteMarker voucher = true
  · have hone : voucher ∈ [old] := hold ▸ List.mem_filter.2 ⟨hvoucher, hmarker⟩
    simp [List.mem_singleton.1 hone, holdInactive]
  · simp [hmarker]

/-- No order could use the old marker, and none can use the new one. -/
theorem references_withMarker (h : db.SoundCatalog) {marker : Voucher}
    (hinactive : marker.payload.isActive = some false) :
    (withMarker marker db).references = db.references :=
  References.ext rfl rfl rfl rfl rfl
    (congrArg (List.map _) (activeVouchers_withMarker h hinactive))

/-- **The new marker keeps the database sound.** -/
theorem sound_withMarker (h : db.Sound) {marker : Voucher} (hmarker : isDeleteMarker marker = true)
    (hinactive : marker.payload.isActive = some false)
    (hfits : (withMarker marker db).FitsSchema) : (withMarker marker db).Sound where
  fits := hfits
  orders := h.orders.of_sameOrders ⟨rfl, rfl, rfl, rfl, rfl⟩
  linked := h.linked.of_sameOrders ⟨rfl, rfl, rfl, rfl, rfl⟩
    (references_withMarker h.catalog hinactive)
  catalog := by
    refine ⟨h.catalog.shop, h.catalog.variants, ?_, marker, ?_, hinactive⟩
    · rw [activeVouchers_withMarker h.catalog hinactive]
      exact h.catalog.voucher
    · have hrest : ((db.vouchers.filter fun voucher ↦ !isDeleteMarker voucher).filter
          isDeleteMarker) = [] := by
        simp
      rw [withMarker, List.filter_append, hrest, List.nil_append]
      exact List.filter_cons_of_pos hmarker

end Marker

/-! ### A batch of changes -/

section Batch

variable {render : Rendering} {state : RuntimeState} {draws : ChangeDraws} {changedAt : Timestamp}

/-- The order that moves on, and where to. -/
def nextToMove (db : OltpDatabase) : Option (ℤ × OrderStatus) :=
  (firstOpen db).bind fun order ↦ (openStatus order).map fun status ↦
    (order.key, nextOrderStatus status)

/-- **The order that is to move on would be delivered before it is shipped.** -/
def EarlyDelivery (db : OltpDatabase) (changedAt : Timestamp) : Prop :=
  ∃ next ∈ nextToMove db, ∃ shipment ∈ db.shipmentsOf next.1,
    DeliveredEarly next.2 changedAt shipment.payload

instance : Decidable (EarlyDelivery db changedAt) :=
  inferInstanceAs (Decidable (∃ next ∈ nextToMove db, ∃ shipment ∈ db.shipmentsOf next.1, _))

/-- The database after that order has moved on. -/
def moved (db : OltpDatabase) (changedAt : Timestamp) : OltpDatabase :=
  match nextToMove db with
  | none => db
  | some next => advanced next.1 next.2 changedAt db

/-- **What `advance_order` does.** -/
theorem advanceOrder_eq_ok_iff (h : db.CompleteOrders) {result : OltpDatabase × Option ℤ} :
    advanceOrder db changedAt = .ok result ↔ ¬EarlyDelivery db changedAt ∧
      result = (moved db changedAt, (nextToMove db).map fun next ↦ next.1) := by
  have hok {α : Type} {a b : α} : (Except.ok a : Except OltpError α) = .ok b ↔ b = a :=
    ⟨fun heq ↦ (Except.ok.inj heq).symm, fun heq ↦ by rw [heq]⟩
  rw [advanceOrder, EarlyDelivery, moved, nextToMove]
  cases firstOpen db with
  | none => simp [hok]
  | some order =>
    cases hstatus : openStatus order with
    | none => simp [hok, hstatus]
    | some status =>
      simp only [Option.bind_some, hstatus, Option.map_some, Option.mem_some_iff, exists_eq_left']
      rw [bind_eq_ok]
      constructor
      · rintro ⟨db', hdb', ⟨⟩⟩
        obtain ⟨hearly, rfl⟩ := (advanceTo_eq_ok_iff h).1 hdb'
        exact ⟨fun ⟨shipment, hshipment, his⟩ ↦ hearly shipment hshipment his, rfl⟩
      · rintro ⟨hearly, rfl⟩
        exact ⟨_, (advanceTo_eq_ok_iff h).2
          ⟨fun shipment hshipment his ↦ hearly ⟨shipment, hshipment, his⟩, rfl⟩, rfl⟩

/-- It is refused for nothing but the times of the shipment. -/
theorem eq_shipmentTimeOrder_of_advanceOrder {error : OltpError}
    (h : advanceOrder db changedAt = .error error) : error = .shipmentTimeOrder := by
  rw [advanceOrder] at h
  split at h
  · cases h
  split at h
  · cases h
  rcases bind_eq_error.1 h with hadvance | ⟨_, -, hdone⟩
  · rcases bind_eq_error.1 hadvance with hcheck | ⟨_, -, hdone⟩
    · exact (ensure_eq_error.1 hcheck).2
    · cases hdone
  · cases hdone

/-- An early delivery is refused. -/
theorem advanceOrder_of_early (h : db.CompleteOrders) (hearly : EarlyDelivery db changedAt) :
    advanceOrder db changedAt = .error .shipmentTimeOrder := by
  cases hadvance : advanceOrder db changedAt with
  | ok result => exact absurd hearly ((advanceOrder_eq_ok_iff h).1 hadvance).1
  | error error => rw [eq_shipmentTimeOrder_of_advanceOrder hadvance]

/-- **A step of the queue of orders keeps the database sound.** -/
theorem sound_moved (h : db.Sound) (hearly : ¬EarlyDelivery db changedAt) :
    (moved db changedAt).Sound := by
  rw [moved]
  cases hnext : nextToMove db with
  | none => exact h
  | some next =>
    obtain ⟨order, -, hmap⟩ := Option.bind_eq_some_iff.1 hnext
    obtain ⟨status, -, rfl⟩ := Option.map_eq_some_iff.1 hmap
    exact sound_advanced h nextOrderStatus_ne_pendingPayment fun shipment hshipment his ↦
      hearly ⟨_, hnext, shipment, hshipment, his⟩

/-- It leaves the tables that orders refer to. -/
theorem references_moved : (moved db changedAt).references = db.references := by
  rw [moved]
  split <;> rfl

/-- So does the delete of a seeded order. -/
theorem sound_deleteBaselineOrder (h : db.Sound) (excludeOrderId : Option ℤ) :
    (deleteBaselineOrder db excludeOrderId).1.Sound := by
  rw [deleteBaselineOrder]
  split
  · exact h
  · exact sound_deleteOrder h _

/-- The delete leaves the tables that orders refer to. -/
theorem references_deleteBaselineOrder (excludeOrderId : Option ℤ) :
    (deleteBaselineOrder db excludeOrderId).1.references = db.references := by
  rw [deleteBaselineOrder]
  split <;> rfl

/-- The database after a batch of changes. -/
def changed (render : Rendering) (draws : ChangeDraws) (changedAt : Timestamp) (db : OltpDatabase) :
    OltpDatabase :=
  withMarker (markerRow draws.markerId changedAt (render.stamp changedAt))
    (deleteBaselineOrder (moved (updatedRows draws changedAt db) changedAt)
      ((nextToMove db).map fun next ↦ next.1)).1

/-- After the update of the variant no change touches the variants. -/
theorem productVariants_changed :
    (changed render draws changedAt db).productVariants =
      (repricedVariant draws changedAt db).productVariants := by
  rw [changed, deleteBaselineOrder, moved]
  split <;> split <;> rfl

/-- If the rows fit after the changes, those of the variants do. -/
theorem repricedInRange_of_fitsSchema (h : (changed render draws changedAt db).FitsSchema) :
    RepricedInRange draws changedAt db := by
  intro row hrow hkey
  have hrange := (h.tables .productVariants).inRange
  refine hrange (repriced draws changedAt row) ?_
  show _ ∈ (changed render draws changedAt db).productVariants
  rw [productVariants_changed]
  exact List.mem_map.2 ⟨row, hrow, if_pos (decide_eq_true hkey)⟩

/-- The database before the marker is replaced is sound. -/
theorem sound_unmarked (hsound : db.Sound) {refs : References} (hloaded : Loaded refs state)
    {seen : OltpDatabase} (hdrawn : draws.Drawn seen state)
    (hrange : RepricedInRange draws changedAt db) (hearly : ¬EarlyDelivery db changedAt)
    (excludeOrderId : Option ℤ) :
    (deleteBaselineOrder (moved (updatedRows draws changedAt db) changedAt) excludeOrderId).1.Sound
      := by
  have hupdated : (updatedRows draws changedAt db).Sound :=
    hsound.of_updatesRows (updatesRows_updatedRows hloaded hdrawn hrange)
  exact sound_deleteBaselineOrder (sound_moved hupdated hearly) excludeOrderId

/-- **What `apply_change_events` does**, and what stops it. -/
theorem applyChangeEvents_eq_ok_iff (hsound : db.Sound) {refs : References}
    (hloaded : Loaded refs state) {seen : OltpDatabase} (hdrawn : draws.Drawn seen state) :
    applyChangeEvents render db draws changedAt = .ok db' ↔
      (db.categories ≠ [] ∧ ¬EarlyDelivery db changedAt) ∧ db'.FitsSchema ∧
        db' = changed render draws changedAt db := by
  obtain ⟨hprice, hpercent⟩ := hdrawn.price_nonneg hloaded
  constructor
  · intro h
    obtain ⟨_, hvariant, h⟩ := exists_of_bind_eq_ok h
    obtain ⟨hrange, rfl⟩ := (updateProductVariant_eq_ok_iff hprice hpercent).1 hvariant
    obtain ⟨_, hcategory, h⟩ := exists_of_bind_eq_ok h
    obtain ⟨hcategories, ⟨⟩⟩ := ensure_bind_eq_ok.1 hcategory
    obtain ⟨_, hadvance, h⟩ := exists_of_bind_eq_ok h
    have hupdated : (updatedRows draws changedAt db).Sound :=
      hsound.of_updatesRows (updatesRows_updatedRows hloaded hdrawn hrange)
    obtain ⟨hearly, rfl⟩ := (advanceOrder_eq_ok_iff hupdated.orders).1 hadvance
    obtain ⟨hfits, rfl⟩ := (rotateDeleteMarkerVoucher_eq_ok_iff
      (sound_unmarked hsound hloaded hdrawn hrange hearly _)).1 h
    exact ⟨⟨hcategories, hearly⟩, hfits, rfl⟩
  · rintro ⟨⟨hcategories, hearly⟩, hfits, rfl⟩
    have hrange := repricedInRange_of_fitsSchema hfits
    have hupdated : (updatedRows draws changedAt db).Sound :=
      hsound.of_updatesRows (updatesRows_updatedRows hloaded hdrawn hrange)
    refine bind_eq_ok.2 ⟨_, (updateProductVariant_eq_ok_iff hprice hpercent).2 ⟨hrange, rfl⟩, ?_⟩
    refine bind_eq_ok.2 ⟨_, ensure_bind_eq_ok.2 ⟨hcategories, rfl⟩, ?_⟩
    refine bind_eq_ok.2 ⟨_, (advanceOrder_eq_ok_iff hupdated.orders).2 ⟨hearly, rfl⟩, ?_⟩
    exact (rotateDeleteMarkerVoucher_eq_ok_iff
      (sound_unmarked hsound hloaded hdrawn hrange hearly _)).2 ⟨hfits, rfl⟩

/-- An early delivery stops the changes, as far as they get. -/
theorem applyChangeEvents_of_early (hsound : db.Sound) {refs : References}
    (hloaded : Loaded refs state) {seen : OltpDatabase} (hdrawn : draws.Drawn seen state)
    (hrange : RepricedInRange draws changedAt db) (hcategories : db.categories ≠ [])
    (hearly : EarlyDelivery db changedAt) :
    applyChangeEvents render db draws changedAt = .error .shipmentTimeOrder := by
  obtain ⟨hprice, hpercent⟩ := hdrawn.price_nonneg hloaded
  have hupdated : (updatedRows draws changedAt db).Sound :=
    hsound.of_updatesRows (updatesRows_updatedRows hloaded hdrawn hrange)
  have hvariant : updateProductVariant draws changedAt (updateCustomer draws changedAt db) =
      .ok (repricedVariant draws changedAt (updateCustomer draws changedAt db)) :=
    (updateProductVariant_eq_ok_iff hprice hpercent).2 ⟨hrange, rfl⟩
  have hcategory : updateCategory draws changedAt (updateShop draws changedAt (updateProduct draws
      changedAt (repricedVariant draws changedAt (updateCustomer draws changedAt db)))) =
        .ok (updatedRows draws changedAt db) := ensure_bind_eq_ok.2 ⟨hcategories, rfl⟩
  have hadvance := advanceOrder_of_early hupdated.orders hearly
  rw [applyChangeEvents, hvariant, ok_bind]
  dsimp only
  rw [hcategory, ok_bind, hadvance]
  rfl

/-- **A batch of changes keeps the database sound**, and what rows of orders refer to. -/
theorem sound_changed (hsound : db.Sound) {refs : References} (hloaded : Loaded refs state)
    {seen : OltpDatabase} (hdrawn : draws.Drawn seen state) (hearly : ¬EarlyDelivery db changedAt)
    (hfits : (changed render draws changedAt db).FitsSchema) :
    (changed render draws changedAt db).Sound ∧
      (changed render draws changedAt db).references = db.references := by
  have hrange := repricedInRange_of_fitsSchema hfits
  have hunmarked : (deleteBaselineOrder (moved (updatedRows draws changedAt db) changedAt)
      ((nextToMove db).map fun next ↦ next.1)).1.Sound :=
    sound_unmarked hsound hloaded hdrawn hrange hearly _
  refine ⟨sound_withMarker hunmarked (isDeleteMarker_markerRow _) rfl hfits, ?_⟩
  rw [changed, references_withMarker hunmarked.catalog rfl, references_deleteBaselineOrder,
    references_moved]
  exact (updatesRows_updatedRows hloaded hdrawn hrange).references

end Batch

end LakehousePipeline.Generator
