import LakehousePipeline.Generator.InsertedOrders

/-!
# A sound source database

What holds of the database whatever the generator does to it (`Sound`): the rows fit the schema,
every order is complete, what it refers to is there, and one of the vouchers is the delete marker,
which no order uses.

No change event changes what rows of orders refer to, so what was loaded before a transaction stays
valid after it. Under the invariant an order is refused only if its rows do not fit: a key, a public
id or the order number is there, or an amount is out of range (`insertOrder_eq_ok_iff`).

## What the parts of the invariant are for

* `FitsSchema` is what an insert can still violate. It is a property of the tables alone, so a
  refused insert is one whose result does not have it, and the order of the checks does not matter.
* `CompleteOrders` is what Gold reads of an order. That every child row has its order makes a new
  key of an order one that no child refers to, so its children are exactly those inserted with it.
* `Linked` and `SoundCatalog` are what the checks of foreign keys and of vouchers ask of the other
  tables. They speak of `references` only, which no transaction changes.

## The order that is inserted

`insertOrder` is a chain of five inserts, each with its checks. `insertOrder_eq_ok_iff` turns it
into one condition on the result: the amounts pass the `CHECK`s because of how they are drawn, the
foreign keys because the state is loaded, the times because a delivery is drawn after its shipping.
-/

namespace LakehousePipeline.Generator

open Checks KeyedTables

namespace OltpDatabase

variable (db : OltpDatabase)

/-- The items of an order. -/
def itemsOf (orderId : ℤ) : List OrderItem :=
  childrenOf (fun item : OrderItem ↦ item.payload.orderId) orderId db.orderItems

/-- The vouchers of an order. -/
def usesOf (orderId : ℤ) : List OrderVoucher :=
  childrenOf (fun use : OrderVoucher ↦ use.payload.orderId) orderId db.orderVouchers

/-- The payments of an order. -/
def paymentsOf (orderId : ℤ) : List Payment :=
  childrenOf (fun payment : Payment ↦ payment.payload.orderId) orderId db.payments

/-- The shipments of an order. -/
def shipmentsOf (orderId : ℤ) : List Shipment :=
  childrenOf (fun shipment : Shipment ↦ shipment.payload.orderId) orderId db.shipments

/-- **The orders are complete**, and the rows of orders have an order. -/
structure CompleteOrders : Prop where
  items : Refers (fun order : Order ↦ order.key) (fun item : OrderItem ↦ item.payload.orderId)
    db.orders db.orderItems
  uses : Refers (fun order : Order ↦ order.key) (fun use : OrderVoucher ↦ use.payload.orderId)
    db.orders db.orderVouchers
  payments : Refers (fun order : Order ↦ order.key)
    (fun payment : Payment ↦ payment.payload.orderId) db.orders db.payments
  shipments : Refers (fun order : Order ↦ order.key)
    (fun shipment : Shipment ↦ shipment.payload.orderId) db.orders db.shipments
  complete : ∀ order ∈ db.orders, Complete order (db.itemsOf order.key) (db.usesOf order.key)
    (db.paymentsOf order.key) (db.shipmentsOf order.key)

/-- **What the rows of orders refer to is there**, and a voucher that is used can be used. -/
structure Linked : Prop where
  customer : ∀ order ∈ db.orders, db.references.HasCustomer order.payload
  product : ∀ item ∈ db.orderItems, db.references.HasProduct item.payload
  voucher : ∀ use ∈ db.orderVouchers, use.payload.voucherId ∈ db.references.activeVouchers

/-- **The tables the rows of orders refer to.** -/
structure SoundCatalog : Prop where
  /-- A product has a shop. -/
  shop : ∀ product ∈ db.products, product.payload.shopId ∈ db.references.shops
  variants : ∀ row ∈ db.productVariants, VariantChecks row.payload
  /-- There is a voucher to use. -/
  voucher : db.activeVouchers ≠ []
  /-- There is one delete marker, and it cannot be used. -/
  marker : ∃ marker, db.vouchers.filter isDeleteMarker = [marker] ∧
    marker.payload.isActive = some false

/-- **A sound database.** -/
structure Sound : Prop where
  fits : db.FitsSchema
  orders : db.CompleteOrders
  linked : db.Linked
  catalog : db.SoundCatalog

end OltpDatabase

/-! ### An order is inserted -/

section InsertOrder

variable {render : Rendering} {state : RuntimeState} {draws : OrderDraws} {orderNumber : Text}
  {createdAt : Timestamp} {db db' : OltpDatabase}

/-- The database with the rows of an order. -/
def withOrder (render : Rendering) (state : RuntimeState) (draws : OrderDraws) (orderNumber : Text)
    (createdAt : Timestamp) (db : OltpDatabase) : OltpDatabase :=
  { db with
    orders := db.orders ++ [orderRow draws orderNumber createdAt]
    orderItems := db.orderItems ++ draws.lines.map (itemRow render createdAt draws.orderId)
    orderVouchers := db.orderVouchers ++ orderVoucherRows state draws createdAt
    payments := db.payments ++ [paymentRow draws createdAt]
    shipments := db.shipments ++ [shipmentRow draws orderNumber createdAt] }

/-- The row of `order_vouchers` is one of the order and of a loaded voucher. -/
theorem of_mem_orderVoucherRows {use : OrderVoucher}
    (huse : use ∈ orderVoucherRows state draws createdAt) : use.payload.orderId = draws.orderId ∧
      use.payload.voucherId = some draws.voucherId ∧ state.voucherIds ≠ [] ∧
      0 ≤ use.payload.discountAmount.getD 0 := by
  rw [orderVoucherRows] at huse
  split at huse
  · rename_i hpos
    obtain rfl := List.mem_singleton.1 huse
    exact ⟨rfl, rfl, hpos.2, hpos.1.le⟩
  · cases huse

/-- The rows of an order refer to what was loaded. -/
theorem hasCustomer_orderRow (hloaded : Loaded db.references state) (hdrawn : draws.Drawn state) :
    db.references.HasCustomer (orderRow draws orderNumber createdAt).payload :=
  have huser := hloaded.users _ hdrawn.user
  ⟨huser.1, huser.2, huser.2⟩

/-- A drawn variant has its product, and the product its shop. -/
theorem hasProduct_itemRow (hcatalog : db.SoundCatalog) (hloaded : Loaded db.references state)
    (hdrawn : draws.Drawn state) {line : LineDraw} (hline : line ∈ draws.lines) :
    db.references.HasProduct (itemRow render createdAt draws.orderId line).payload := by
  have hmem : line.variant ∈ state.variants :=
    hdrawn.variants.subset (List.mem_map.2 ⟨line, hline, rfl⟩)
  obtain ⟨-, hvariant, shopId, hproduct, hshop⟩ := hloaded.variants _ hmem
  obtain ⟨product, hmem, heq⟩ := List.mem_map.1 hproduct
  have hshops := hcatalog.shop product hmem
  obtain ⟨-, rfl⟩ := Prod.mk.inj heq
  obtain ⟨shop, hshopMem, hkey⟩ := List.mem_map.1 hshops
  have hshopId : product.payload.shopId = some line.variant.shopId := by
    rw [← hkey] at hshop ⊢
    exact congrArg some hshop
  rw [hshopId] at hshops hproduct
  exact ⟨hshops, hproduct, hvariant⟩

/-- A drawn voucher can be used. -/
theorem mem_activeVouchers_orderVoucherRows (hloaded : Loaded db.references state)
    (hdrawn : draws.Drawn state) {use : OrderVoucher}
    (huse : use ∈ orderVoucherRows state draws createdAt) :
    use.payload.voucherId ∈ db.references.activeVouchers := by
  obtain ⟨-, hvoucher, hne, -⟩ := of_mem_orderVoucherRows huse
  rw [hvoucher]
  exact (hloaded.voucherIds _).1 (hdrawn.voucherId hne)

/-! #### The constraints -/

/-- The columns pass if the row fits its table. -/
theorem checkColumns_eq_ok_iff {t : SilverTable} {row : BusinessRow ℤ (SilverColumns t)} :
    db.checkColumns t row = .ok () ↔ RowFits (db.rows t) row := by
  rw [OltpDatabase.checkColumns, ensure_bind_eq_ok, ensure_eq_ok]
  exact ⟨fun h ↦ ⟨h.1, h.2⟩, fun h ↦ ⟨h.inRange, h.publicId⟩⟩

/-- A check that begins with the columns. -/
theorem checkColumns_bind_eq_ok {t : SilverTable} {row : BusinessRow ℤ (SilverColumns t)}
    {rest : Unit → Except OltpError Unit} : (db.checkColumns t row >>= rest) = .ok () ↔
      RowFits (db.rows t) row ∧ rest () = .ok () := by
  rw [bind_eq_ok]
  constructor
  · rintro ⟨_, hcolumns, hrest⟩
    exact ⟨checkColumns_eq_ok_iff.1 hcolumns, hrest⟩
  · rintro ⟨hfits, hrest⟩
    exact ⟨(), checkColumns_eq_ok_iff.2 hfits, hrest⟩

/-- A header with drawn amounts is refused for its numbers, its public id or its order number. -/
theorem checkOrder_eq_ok_iff {order : Order} (hchecks : order.payload.Checks)
    (hcustomer : db.references.HasCustomer order.payload) : db.checkOrder order = .ok () ↔
      RowFits (db.rows .orders) order ∧
        order.payload.orderNumber ∉ db.orders.map fun old ↦ old.payload.orderNumber := by
  have hkeys := And.intro (List.mem_map.1 hcustomer.user) (And.intro
    (hasAddress_iff.2 hcustomer.shippingAddress) (hasAddress_iff.2 hcustomer.billingAddress))
  refine checkColumns_bind_eq_ok.trans (and_congr_right fun _ ↦ ?_)
  rw [ensure_bind_eq_ok, ensure_bind_eq_ok, ensure_eq_ok]
  exact ⟨fun h ↦ h.2.1, fun h ↦ ⟨hchecks, h, hkeys⟩⟩

/-- The order of an inserted row is there. -/
theorem checkOrderId_eq_ok {t : SilverTable} {orderId : ℤ}
    (h : orderId ∈ db.orders.map fun order ↦ order.key) : db.checkOrderId t orderId = .ok () :=
  ensure_of h

/-- An item is refused only for a number out of range. -/
theorem checkOrderItem_eq_ok_iff {item : OrderItem} (hchecks : item.payload.Checks)
    (horder : item.payload.orderId ∈ db.orders.map fun order ↦ order.key)
    (hproduct : db.references.HasProduct item.payload) :
    db.checkOrderItem item = .ok () ↔ InRange .orderItems item.payload := by
  refine checkColumns_bind_eq_ok.trans ⟨fun h ↦ h.1.inRange, fun h ↦ ⟨⟨h, ?_⟩, ?_⟩⟩
  · rintro id ⟨⟩
  · rw [ensure_bind_eq_ok, checkOrderId_eq_ok horder]
    exact ⟨hchecks, ensure_of (hasProduct_iff.2 hproduct)⟩

/-- So is a voucher of a new order. -/
theorem checkOrderVoucher_eq_ok_iff {use : OrderVoucher}
    (hdiscount : 0 ≤ use.payload.discountAmount.getD 0)
    (hnew : ∀ old ∈ db.orderVouchers, old.payload.orderId ≠ use.payload.orderId)
    (horder : use.payload.orderId ∈ db.orders.map fun order ↦ order.key)
    (hvoucher : use.payload.voucherId ∈ db.references.activeVouchers) :
    db.checkOrderVoucher use = .ok () ↔ InRange .orderVouchers use.payload := by
  refine checkColumns_bind_eq_ok.trans ⟨fun h ↦ h.1.inRange, fun h ↦ ⟨⟨h, ?_⟩, ?_⟩⟩
  · rintro id ⟨⟩
  · rw [ensure_bind_eq_ok, ensure_bind_eq_ok, checkOrderId_eq_ok horder]
    obtain ⟨voucher, hmem, hkey⟩ := List.mem_map.1 hvoucher
    exact ⟨hdiscount, fun old hold heq ↦ hnew old hold heq.1,
      ensure_of ⟨voucher, List.mem_of_mem_filter hmem, hkey⟩⟩

/-- A payment is refused for its amount or its public id. -/
theorem checkPayment_eq_ok_iff {payment : Payment} (hamount : 0 ≤ payment.payload.amount.getD 0)
    (horder : payment.payload.orderId ∈ db.orders.map fun order ↦ order.key) :
    db.checkPayment payment = .ok () ↔ RowFits (db.rows .payments) payment := by
  refine checkColumns_bind_eq_ok.trans (and_iff_left ?_)
  rw [ensure_bind_eq_ok]
  exact ⟨hamount, checkOrderId_eq_ok horder⟩

/-- And a shipment for its public id, if its tracking number is new. -/
theorem checkShipment_eq_ok_iff {shipment : Shipment} (htime : TimeOrder shipment.payload)
    (hnew : ∀ number ∈ shipment.payload.trackingNumber,
      ∀ old ∈ db.shipments, old.payload.trackingNumber ≠ some number)
    (horder : shipment.payload.orderId ∈ db.orders.map fun order ↦ order.key) :
    db.checkShipment shipment = .ok () ↔ RowFits (db.rows .shipments) shipment := by
  refine checkColumns_bind_eq_ok.trans (and_iff_left ?_)
  rw [ensure_bind_eq_ok, ensure_bind_eq_ok]
  refine ⟨htime, ?_, checkOrderId_eq_ok horder⟩
  cases hnumber : shipment.payload.trackingNumber with
  | none => exact Or.inl rfl
  | some number => exact Or.inr fun old hold heq ↦ hnew number hnumber old hold heq.2

/-- The tracking numbers are made of order numbers. -/
theorem exists_order_of_trackingNumber (h : db.CompleteOrders) {shipment : Shipment}
    (hshipment : shipment ∈ db.shipments) {number : Text}
    (hnumber : shipment.payload.trackingNumber = some number) :
    ∃ order ∈ db.orders, ∃ orderNumber, order.payload.orderNumber = some orderNumber ∧
      number = "TRK-".toList ++ orderNumber := by
  obtain ⟨order, horder, hkey⟩ := h.shipments shipment hshipment
  -- the order has one shipment, so it is this one
  obtain ⟨only, honly, -, -, htracking⟩ := (h.complete order horder).shipment
  have hmem : shipment ∈ db.shipmentsOf order.key := mem_childrenOf.2 ⟨hshipment, hkey.symm⟩
  rw [honly] at hmem
  obtain rfl := List.mem_singleton.1 hmem
  obtain ⟨orderNumber, horderNumber, heq⟩ :=
    Option.map_eq_some_iff.1 (htracking number hnumber).symm
  exact ⟨order, horder, orderNumber, horderNumber, heq.symm⟩

/-! #### What is inserted -/

/-- When the rows of an order fit. -/
theorem fitsSchema_withOrder_iff (h : db.FitsSchema) :
    (withOrder render state draws orderNumber createdAt db).FitsSchema ↔
      (draws.orderId ∉ db.orders.map (fun order ↦ order.key) ∧
        RowFits (db.rows .orders) (orderRow draws orderNumber createdAt)) ∧
      some orderNumber ∉ db.orders.map (fun order ↦ order.payload.orderNumber) ∧
      (((db.orderItems ++ draws.lines.map (itemRow render createdAt draws.orderId)).map
        fun item ↦ item.key).Nodup ∧
          ∀ item ∈ draws.lines.map (itemRow render createdAt draws.orderId),
            InRange .orderItems item.payload) ∧
      (((db.orderVouchers ++ orderVoucherRows state draws createdAt).map fun use ↦ use.key).Nodup ∧
        ∀ use ∈ orderVoucherRows state draws createdAt, InRange .orderVouchers use.payload) ∧
      (draws.paymentId ∉ db.payments.map (fun payment ↦ payment.key) ∧
        RowFits (db.rows .payments) (paymentRow draws createdAt)) ∧
      draws.shipmentId ∉ db.shipments.map (fun shipment ↦ shipment.key) ∧
        RowFits (db.rows .shipments) (shipmentRow draws orderNumber createdAt) := by
  constructor
  · rintro ⟨htables, hnumbers⟩
    exact ⟨(tableFits_append_singleton.1 (htables .orders)).2,
      (nodup_map_append_singleton.1 hnumbers).2,
      (tableFits_append (fun _ ↦ rfl) (h.tables .orderItems)).1 (htables .orderItems),
      (tableFits_append (fun _ ↦ rfl) (h.tables .orderVouchers)).1 (htables .orderVouchers),
      (tableFits_append_singleton.1 (htables .payments)).2,
      (tableFits_append_singleton.1 (htables .shipments)).2⟩
  · rintro ⟨horder, hnumber, hitem, huse, hpayment, hshipment⟩
    refine ⟨fun t ↦ ?_, nodup_map_append_singleton.2 ⟨h.orderNumbers, hnumber⟩⟩
    cases t with
    | orders => exact tableFits_append_singleton.2 ⟨h.tables .orders, horder⟩
    | orderItems => exact (tableFits_append (fun _ ↦ rfl) (h.tables .orderItems)).2 hitem
    | orderVouchers => exact (tableFits_append (fun _ ↦ rfl) (h.tables .orderVouchers)).2 huse
    | payments => exact tableFits_append_singleton.2 ⟨h.tables .payments, hpayment⟩
    | shipments => exact tableFits_append_singleton.2 ⟨h.tables .shipments, hshipment⟩
    | appUsers => exact h.tables .appUsers
    | userAddresses => exact h.tables .userAddresses
    | shops => exact h.tables .shops
    | categories => exact h.tables .categories
    | products => exact h.tables .products
    | productVariants => exact h.tables .productVariants
    | vouchers => exact h.tables .vouchers

/-- The order number of the shipment is new if that of the order is. -/
theorem trackingNumber_ne (h : db.CompleteOrders)
    (hnumber : some orderNumber ∉ db.orders.map fun order ↦ order.payload.orderNumber)
    {number : Text}
    (hmem : number ∈ (shipmentRow draws orderNumber createdAt).payload.trackingNumber) :
    ∀ old ∈ db.shipments, old.payload.trackingNumber ≠ some number := by
  intro old hold heq
  obtain ⟨-, -, rfl⟩ := Option.map_eq_some_iff.1 hmem
  obtain ⟨order, horder, oldNumber, holdNumber, hsame⟩ := exists_order_of_trackingNumber h hold heq
  obtain rfl := List.append_cancel_left hsame
  exact hnumber (List.mem_map.2 ⟨order, horder, holdNumber⟩)

/-- **What `insert_order` does**: it adds the rows of an order, unless they do not fit. -/
theorem insertOrder_eq_ok_iff (hsound : db.Sound) (hloaded : Loaded db.references state)
    (hdrawn : draws.Drawn state) :
    insertOrder render state draws orderNumber createdAt db = .ok db' ↔
      db'.FitsSchema ∧ db' = withOrder render state draws orderNumber
        (max createdAt draws.user.createdAt) db := by
  have hamounts := amountsDrawn_of_drawn hloaded hdrawn
  have hcheckOrder := checkOrder_eq_ok_iff (hamounts.checks_orderRow orderNumber
    (max createdAt draws.user.createdAt)) (hasCustomer_orderRow hloaded hdrawn)
  rw [insertOrder]
  generalize max createdAt draws.user.createdAt = createdAt at hcheckOrder ⊢
  -- the rows below the order refer to it once it is written
  have hthere : draws.orderId ∈
      (db.orders ++ [orderRow draws orderNumber createdAt]).map fun order ↦ order.key := by
    simp [orderRow]
  constructor
  -- the statements run one after the other, and each has been accepted
  · intro h
    obtain ⟨_, hrow, h⟩ := exists_of_bind_eq_ok h
    obtain ⟨horder, hcheck, rfl⟩ := insertRow_eq_ok_iff.1 hrow
    obtain ⟨horderFits, hnumber⟩ := hcheckOrder.1 hcheck
    obtain ⟨_, hrow, h⟩ := exists_of_bind_eq_ok h
    obtain ⟨hitems, hitemChecks, rfl⟩ :=
      (insertRows_eq_ok_iff (hsound.fits.keys .orderItems)).1 hrow
    obtain ⟨_, hrow, h⟩ := exists_of_bind_eq_ok h
    obtain ⟨huses, huseChecks, rfl⟩ :=
      (insertRows_eq_ok_iff (hsound.fits.keys .orderVouchers)).1 hrow
    obtain ⟨_, hrow, h⟩ := exists_of_bind_eq_ok h
    obtain ⟨hpayment, hpaymentCheck, rfl⟩ := insertRow_eq_ok_iff.1 hrow
    obtain ⟨_, hrow, h⟩ := exists_of_bind_eq_ok h
    obtain ⟨hshipment, hshipmentCheck, rfl⟩ := insertRow_eq_ok_iff.1 hrow
    cases h
    exact ⟨(fitsSchema_withOrder_iff hsound.fits).2 ⟨⟨horder, horderFits⟩, hnumber,
      ⟨hitems, fun item hitem ↦ (checkColumns_bind_eq_ok.1 (hitemChecks item hitem)).1.inRange⟩,
      ⟨huses, fun use huse ↦ (checkColumns_bind_eq_ok.1 (huseChecks use huse)).1.inRange⟩,
      ⟨hpayment, (checkColumns_bind_eq_ok.1 hpaymentCheck).1⟩,
      hshipment, (checkColumns_bind_eq_ok.1 hshipmentCheck).1⟩, rfl⟩
  · rintro ⟨hfits, rfl⟩
    obtain ⟨⟨horder, horderFits⟩, hnumber, ⟨hitems, hitemRange⟩, ⟨huses, huseRange⟩,
      ⟨hpayment, hpaymentFits⟩, hshipment, hshipmentFits⟩ :=
        (fitsSchema_withOrder_iff hsound.fits).1 hfits
    refine bind_eq_ok.2 ⟨_, insertRow_eq_ok_iff.2
      ⟨horder, hcheckOrder.2 ⟨horderFits, hnumber⟩, rfl⟩, ?_⟩
    refine bind_eq_ok.2 ⟨_, (insertRows_eq_ok_iff (hsound.fits.keys .orderItems)).2
      ⟨hitems, fun row hrow ↦ ?_, rfl⟩, ?_⟩
    · have hrange := hitemRange row hrow
      obtain ⟨line, hline, rfl⟩ := List.mem_map.1 hrow
      refine (checkOrderItem_eq_ok_iff ?_ hthere ?_).2 hrange
      · exact hamounts.checks_itemRow render createdAt draws.orderId hline
      · exact hasProduct_itemRow hsound.catalog hloaded hdrawn hline
    refine bind_eq_ok.2 ⟨_, (insertRows_eq_ok_iff (hsound.fits.keys .orderVouchers)).2
      ⟨huses, fun use huse ↦ ?_, rfl⟩, ?_⟩
    · obtain ⟨horderId, -, -, hdiscount⟩ := of_mem_orderVoucherRows huse
      refine (checkOrderVoucher_eq_ok_iff hdiscount (fun old hold heq ↦ ?_) ?_ ?_).2
        (huseRange use huse)
      · -- the order is new, so no voucher is one of it
        obtain ⟨parent, hparent, hkey⟩ := hsound.orders.uses old hold
        exact horder (List.mem_map.2 ⟨parent, hparent, hkey.trans (heq.trans horderId)⟩)
      · exact horderId ▸ hthere
      · exact mem_activeVouchers_orderVoucherRows hloaded hdrawn huse
    refine bind_eq_ok.2 ⟨_, insertRow_eq_ok_iff.2 ⟨hpayment, ?_, rfl⟩, ?_⟩
    · refine (checkPayment_eq_ok_iff ?_ hthere).2 hpaymentFits
      exact hamounts.orderLevelDiscount_bounds.2.2.2
    refine bind_eq_ok.2 ⟨_, insertRow_eq_ok_iff.2 ⟨hshipment, ?_, rfl⟩, rfl⟩
    refine (checkShipment_eq_ok_iff ?_ (fun number hmem ↦ ?_) ?_).2 hshipmentFits
    · exact timeOrder_shipmentRow fun days hdays ↦ (hdrawn.deliveryDays days hdays).1
    · exact trackingNumber_ne hsound.orders hnumber hmem
    · exact hthere

/-- The rows of an order are of that order. -/
theorem orderId_of_mem_items {item : OrderItem}
    (h : item ∈ draws.lines.map (itemRow render createdAt draws.orderId)) :
    item.payload.orderId = draws.orderId := by
  obtain ⟨line, -, rfl⟩ := List.mem_map.1 h
  rfl

/-- The rows of an order are the same. -/
structure SameRows (db db' : OltpDatabase) (orderId : ℤ) : Prop where
  items : db'.itemsOf orderId = db.itemsOf orderId
  uses : db'.usesOf orderId = db.usesOf orderId
  payments : db'.paymentsOf orderId = db.paymentsOf orderId
  shipments : db'.shipmentsOf orderId = db.shipmentsOf orderId

/-- Rows that stay the same twice. -/
theorem SameRows.trans {db'' : OltpDatabase} {orderId : ℤ} (h : SameRows db db' orderId)
    (h' : SameRows db' db'' orderId) : SameRows db db'' orderId :=
  ⟨h'.items.trans h.items, h'.uses.trans h.uses, h'.payments.trans h.payments,
    h'.shipments.trans h.shipments⟩

/-- The rows of an order are not those of another. -/
theorem sameRows_withOrder {orderId : ℤ} (hne : draws.orderId ≠ orderId) :
    SameRows db (withOrder render state draws orderNumber createdAt db) orderId where
  items := childrenOf_append_of_ne fun item hitem ↦ orderId_of_mem_items hitem ▸ hne
  uses := childrenOf_append_of_ne fun use huse ↦ (of_mem_orderVoucherRows huse).1 ▸ hne
  payments := childrenOf_append_of_ne fun payment hpayment ↦ by
    rw [List.mem_singleton.1 hpayment]
    exact hne
  shipments := childrenOf_append_of_ne fun shipment hshipment ↦ by
    rw [List.mem_singleton.1 hshipment]
    exact hne

/-- **An inserted order is complete**, and the others stay so. -/
theorem completeOrders_withOrder (h : db.CompleteOrders)
    (hnew : draws.orderId ∉ db.orders.map fun order ↦ order.key)
    (hcomplete : Complete (orderRow draws orderNumber createdAt)
      (draws.lines.map (itemRow render createdAt draws.orderId))
      (orderVoucherRows state draws createdAt) [paymentRow draws createdAt]
      [shipmentRow draws orderNumber createdAt]) :
    (withOrder render state draws orderNumber createdAt db).CompleteOrders := by
  have hpayment : ∀ payment ∈ [paymentRow draws createdAt],
      payment.payload.orderId = draws.orderId := List.forall_mem_singleton.2 rfl
  have hshipment : ∀ shipment ∈ [shipmentRow draws orderNumber createdAt],
      shipment.payload.orderId = draws.orderId := List.forall_mem_singleton.2 rfl
  refine ⟨h.items.append fun item ↦ orderId_of_mem_items,
    h.uses.append fun use huse ↦ (of_mem_orderVoucherRows huse).1, h.payments.append hpayment,
    h.shipments.append hshipment, fun order horder ↦ ?_⟩
  rcases List.mem_append.1 horder with hold | hlast
  · have hne : draws.orderId ≠ order.key := fun heq ↦ hnew (heq ▸ List.mem_map_of_mem hold)
    have hsame : SameRows db (withOrder render state draws orderNumber createdAt db) order.key :=
      sameRows_withOrder hne
    rw [hsame.items, hsame.uses, hsame.payments, hsame.shipments]
    exact h.complete order hold
  · rw [List.mem_singleton.1 hlast, OltpDatabase.itemsOf, OltpDatabase.usesOf,
      OltpDatabase.paymentsOf, OltpDatabase.shipmentsOf]
    show Complete _ (childrenOf _ draws.orderId _) (childrenOf _ draws.orderId _)
      (childrenOf _ draws.orderId _) (childrenOf _ draws.orderId _)
    rwa [withOrder, h.items.childrenOf_append hnew fun item ↦ orderId_of_mem_items,
      h.uses.childrenOf_append hnew fun use huse ↦ (of_mem_orderVoucherRows huse).1,
      h.payments.childrenOf_append hnew hpayment, h.shipments.childrenOf_append hnew hshipment]

/-- **An inserted order keeps the database sound.** -/
theorem sound_withOrder (hsound : db.Sound) (hloaded : Loaded db.references state)
    (hdrawn : draws.Drawn state)
    (hfits : (withOrder render state draws orderNumber createdAt db).FitsSchema) :
    (withOrder render state draws orderNumber createdAt db).Sound where
  fits := hfits
  orders := by
    -- there is a voucher to use, so the discount of the order gets one
    have hvouchers : state.voucherIds ≠ [] := by
      obtain ⟨voucher, hvoucher⟩ := List.exists_mem_of_ne_nil _ hsound.catalog.voucher
      exact List.ne_nil_of_mem ((hloaded.voucherIds voucher.key).2 (List.mem_map_of_mem hvoucher))
    have hnew := ((fitsSchema_withOrder_iff hsound.fits).1 hfits).1.1
    exact completeOrders_withOrder hsound.orders hnew
      (complete_inserted (amountsDrawn_of_drawn hloaded hdrawn) hdrawn.lines_ne
        (fun days hdays ↦ (hdrawn.deliveryDays days hdays).1) hvouchers)
  linked := by
    refine ⟨fun order horder ↦ ?_, fun item hitem ↦ ?_, fun use huse ↦ ?_⟩
    · rcases List.mem_append.1 horder with hold | hlast
      · exact hsound.linked.customer order hold
      · rw [List.mem_singleton.1 hlast]
        exact hasCustomer_orderRow hloaded hdrawn
    · rcases List.mem_append.1 hitem with hold | hadded
      · exact hsound.linked.product item hold
      · obtain ⟨line, hline, rfl⟩ := List.mem_map.1 hadded
        exact hasProduct_itemRow hsound.catalog hloaded hdrawn hline
    · rcases List.mem_append.1 huse with hold | hadded
      · exact hsound.linked.voucher use hold
      · exact mem_activeVouchers_orderVoucherRows hloaded hdrawn hadded
  catalog := ⟨hsound.catalog.shop, hsound.catalog.variants, hsound.catalog.voucher,
    hsound.catalog.marker⟩

end InsertOrder

end LakehousePipeline.Generator
