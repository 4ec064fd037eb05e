import LakehousePipeline.Generator.SoundChanges
import LakehousePipeline.Library.Runs

/-!
# Runs of the generator

`seed_once` fills an empty source: the baseline, and then orders in chunks of a transaction each.
`seed_continuous` goes on with batches, each one a transaction too: orders under numbers made of the
time, and then change events. A transaction that is refused is rolled back and ends the process,
which can be started again, also while another one runs; what the seeding process has loaded stays
valid (`soundSource_of_run`).

The catalog of a baseline is any with the references it needs: `seed_users`, `_seed_categories`,
`_seed_shops` and `_seed_products` give one.

## Processes and transactions

A process is a list of transactions here, and several processes are one list, in the order their
transactions commit. That is all there is of concurrency: a transaction sees what has been committed
before it. The seeding process keeps the state it has loaded at its start, so its chunks may come
upon orders and prices of later batches; a batch of the continuous process loads its state anew.

A transaction that is refused changes nothing (`step`). The invariant therefore asks nothing of what
is drawn for keys and numbers, which may collide.

## The baseline

`Baseline` says what is needed of the catalog and no more: it fits the schema, every product has its
shop, the `CHECK`s of the variants hold, and the vouchers are those of `seed_vouchers`. The number
of customers, shops and products is free.
-/

namespace LakehousePipeline.Generator

open Checks KeyedTables

/-! ### The baseline -/

/-- A row of `seed_vouchers`. -/
def voucherRow (voucherId : ℤ) (now : Timestamp) (code : Text) (value : ℤ) : Voucher where
  key := voucherId
  createdAt := now
  payload := {
    voucherCode := some code
    voucherName := some code
    shopId := none
    discountType := some (if "PCT".toList <:+ code then "percent".toList else "fixed".toList)
    discountValue := some (money value)
    maxDiscountAmount := if "PCT".toList <:+ code then some (money 80000) else none
    minimumOrderAmount := some 0
    scopeJson := some "\x7b\"type\": \"all\"\x7d".toList
    startsAt := some (now - 30 * day)
    endsAt := some (now + 60 * day)
    isActive := some true
    updatedAt := some now }

/-- `seed_vouchers`. -/
def seedVouchers (welcomeId saleId vipId markerId : ℤ) (now : Timestamp) : List Voucher :=
  [voucherRow welcomeId now "WELCOME50".toList 50000, voucherRow saleId now "SALE100".toList 100000,
    voucherRow vipId now "VIP5PCT".toList 5, markerRow markerId now "BOOTSTRAP".toList]

/-- What `seed_baseline` leaves in an empty source, and the state it returns. -/
structure Baseline (db : OltpDatabase) (state : RuntimeState) : Prop where
  fits : db.FitsSchema
  orders : db.orders = []
  orderItems : db.orderItems = []
  orderVouchers : db.orderVouchers = []
  payments : db.payments = []
  shipments : db.shipments = []
  shop : ∀ product ∈ db.products, product.payload.shopId ∈ db.references.shops
  variants : ∀ row ∈ db.productVariants, VariantChecks row.payload
  vouchers : ∃ welcomeId saleId vipId markerId now,
    db.vouchers = seedVouchers welcomeId saleId vipId markerId now
  state : Loaded db.references state

theorem sound_of_baseline {db : OltpDatabase} {state : RuntimeState} (h : Baseline db state) :
    db.Sound := by
  obtain ⟨welcomeId, saleId, vipId, markerId, now, hvouchers⟩ := h.vouchers
  have hnone {R : Type} {P : R → Prop} : ∀ row ∈ ([] : List R), P row := fun _ hrow ↦ by cases hrow
  refine ⟨h.fits, ⟨?_, ?_, ?_, ?_, ?_⟩, ⟨?_, ?_, ?_⟩, h.shop, h.variants, ?_,
    markerRow markerId now "BOOTSTRAP".toList, ?_, rfl⟩
  · rw [h.orderItems]
    exact hnone
  · rw [h.orderVouchers]
    exact hnone
  · rw [h.payments]
    exact hnone
  · rw [h.shipments]
    exact hnone
  · rw [h.orders]
    exact hnone
  · rw [h.orders]
    exact hnone
  · rw [h.orderItems]
    exact hnone
  · rw [h.orderVouchers]
    exact hnone
  · rw [OltpDatabase.activeVouchers, hvouchers]
    exact List.cons_ne_nil _ _
  · rw [hvouchers]
    rfl

/-! ### Transactions -/

/-- `f"{n:0{width}d}"`. -/
def padded (width n : ℕ) : Text :=
  (Nat.toDigits 10 n).leftpad width '0'

/-- `f"ORD-{idx:06d}"`. -/
def seedNumber (idx : ℕ) : Text :=
  "ORD-".toList ++ padded 6 idx

/-- `f"ORD-RT-{stamp}-{batch:04d}-{idx:03d}"`. -/
def realtimeNumber (stamp : Text) (batch idx : ℕ) : Text :=
  "ORD-RT-".toList ++ stamp ++ '-' :: padded 4 batch ++ '-' :: padded 3 idx

/-- The arguments of `insert_order`. -/
structure OrderInput where
  orderNumber : Text
  createdAt : Timestamp
  draws : OrderDraws

/-- The loop over `insert_order`. -/
def insertOrders (render : Rendering) (state : RuntimeState) :
    List OrderInput → OltpDatabase → Except OltpError OltpDatabase
  | [], db => .ok db
  | input :: inputs, db => do
    let db ← insertOrder render state input.draws input.orderNumber input.createdAt db
    insertOrders render state inputs db

/-- What is drawn for a seeded order. -/
structure SeedDraws where
  days : ℤ
  minutes : ℤ
  order : OrderDraws

/-- The orders of a chunk of `seed_once`. -/
def seedInputs (now : Timestamp) (completed : ℕ) (orders : List SeedDraws) : List OrderInput :=
  orders.mapIdx fun i draws ↦
    { orderNumber := seedNumber (completed + 1 + i)
      createdAt := now - (draws.days * day + draws.minutes * minute)
      draws := draws.order }

/-- The orders of a batch of `seed_continuous`. -/
def streamInputs (stamp : Text) (batch : ℕ) (now : Timestamp) (orders : List OrderDraws) :
    List OrderInput :=
  orders.mapIdx fun i draws ↦
    { orderNumber := realtimeNumber stamp batch (i + 1), createdAt := now, draws := draws }

/-- A batch of `seed_continuous`. -/
def streamBatch (render : Rendering) (batch : ℕ) (now : Timestamp) (orders : List OrderDraws)
    (changes : ChangeDraws) (db : OltpDatabase) : Except OltpError OltpDatabase := do
  let state ← loadState render db
  let db ← insertOrders render state (streamInputs (render.stamp now) batch now orders) db
  applyChangeEvents render db changes now

/-- A transaction of the generator. -/
inductive Transaction
  /-- A chunk of `seed_once`. -/
  | seedChunk (now : Timestamp) (completed : ℕ) (orders : List SeedDraws)
  /-- A batch of `seed_continuous`. -/
  | streamBatch (batch : ℕ) (now : Timestamp) (orders : List OrderDraws) (changes : ChangeDraws)

/-- What a transaction does. The seeding process has the state of the baseline. -/
def transact (render : Rendering) (seeded : RuntimeState) (db : OltpDatabase) :
    Transaction → Except OltpError OltpDatabase
  | .seedChunk now completed orders =>
    insertOrders render seeded (seedInputs now completed orders) db
  | .streamBatch batch now orders changes => streamBatch render batch now orders changes db

/-- The database after a transaction, which is rolled back if it is refused. -/
def step (render : Rendering) (seeded : RuntimeState) (db : OltpDatabase) (t : Transaction) :
    Option OltpDatabase :=
  match transact render seeded db t with
  | .ok db' => some db'
  | .error _ => some db

/-- What the plan of a process asks for, with draws that the calls of `rng` can give. -/
def Transaction.Drawn (render : Rendering) (seeded : RuntimeState) (db : OltpDatabase) :
    Transaction → Prop
  | .seedChunk _ _ orders => ∀ draws ∈ orders, (0 ≤ draws.days ∧ draws.days ≤ 90) ∧
      (0 ≤ draws.minutes ∧ draws.minutes ≤ 1440) ∧ draws.order.Drawn seeded
  | .streamBatch _ _ orders changes => orders ≠ [] ∧ ∀ state, loadState render db = .ok state →
      (∀ draws ∈ orders, draws.Drawn state) ∧ changes.Drawn db state

instance (render : Rendering) (seeded : RuntimeState) (db : OltpDatabase) :
    ∀ t : Transaction, Decidable (t.Drawn render seeded db)
  | .seedChunk _ _ orders => inferInstanceAs (Decidable (∀ draws ∈ orders, _ ∧ _ ∧ _))
  | .streamBatch _ _ orders changes =>
    match hload : loadState render db with
    | .ok state => decidable_of_iff
        (orders ≠ [] ∧ (∀ draws ∈ orders, draws.Drawn state) ∧ changes.Drawn db state)
        ⟨fun h ↦ ⟨h.1, fun state' hstate ↦ Except.ok.inj (hload.symm.trans hstate) ▸ h.2⟩,
          fun h ↦ ⟨h.1, h.2 state hload⟩⟩
    | .error _ => decidable_of_iff (orders ≠ [])
        ⟨fun h ↦ ⟨h, fun state' hstate ↦ by rw [hload] at hstate; cases hstate⟩, fun h ↦ h.1⟩

/-! ### What a transaction does -/

section Transactions

variable {render : Rendering} {seeded state : RuntimeState} {db db' : OltpDatabase}

/-- The database with the rows of several orders. -/
def withOrders (render : Rendering) (state : RuntimeState) :
    List OrderInput → OltpDatabase → OltpDatabase
  | [], db => db
  | input :: inputs, db => withOrders render state inputs (withOrder render state input.draws
      input.orderNumber (max input.createdAt input.draws.user.createdAt) db)

/-- Fewer rows fit the schema as well. -/
theorem fitsSchema_of_withOrder {draws : OrderDraws} {orderNumber : Text} {createdAt : Timestamp}
    (h : (withOrder render state draws orderNumber createdAt db).FitsSchema) : db.FitsSchema := by
  refine ⟨fun t ↦ (h.tables t).sublist ?_,
    h.orderNumbers.sublist ((List.sublist_append_left _ _).map _)⟩
  cases t <;> first | exact List.sublist_append_left _ _ | exact List.Sublist.refl _

theorem fitsSchema_of_withOrders {inputs : List OrderInput}
    (h : (withOrders render state inputs db).FitsSchema) : db.FitsSchema := by
  induction inputs generalizing db with
  | nil => exact h
  | cons input inputs ih => exact fitsSchema_of_withOrder (ih h)

/-- Several orders keep the database sound. -/
theorem sound_withOrders (hsound : db.Sound) (hloaded : Loaded db.references state)
    {inputs : List OrderInput} (hdrawn : ∀ input ∈ inputs, input.draws.Drawn state)
    (hfits : (withOrders render state inputs db).FitsSchema) :
    (withOrders render state inputs db).Sound ∧
      (withOrders render state inputs db).references = db.references := by
  induction inputs generalizing db with
  | nil => exact ⟨hsound, rfl⟩
  | cons input inputs ih =>
    obtain ⟨hinput, hinputs⟩ := List.forall_mem_cons.1 hdrawn
    rw [withOrders] at hfits ⊢
    exact ih (sound_withOrder hsound hloaded hinput (fitsSchema_of_withOrders hfits)) hloaded
      hinputs hfits

/-- **What several orders do.** -/
theorem insertOrders_eq_ok_iff (hsound : db.Sound) (hloaded : Loaded db.references state)
    {inputs : List OrderInput} (hdrawn : ∀ input ∈ inputs, input.draws.Drawn state) :
    insertOrders render state inputs db = .ok db' ↔
      db'.FitsSchema ∧ db' = withOrders render state inputs db := by
  induction inputs generalizing db with
  | nil =>
    constructor
    · rintro ⟨⟩
      exact ⟨hsound.fits, rfl⟩
    · rintro ⟨-, rfl⟩
      rfl
  | cons input inputs ih =>
    obtain ⟨hinput, hinputs⟩ := List.forall_mem_cons.1 hdrawn
    rw [insertOrders, withOrders, bind_eq_ok]
    constructor
    · rintro ⟨_, hinsert, hrest⟩
      obtain ⟨hfits, rfl⟩ := (insertOrder_eq_ok_iff hsound hloaded hinput).1 hinsert
      exact (ih (sound_withOrder hsound hloaded hinput hfits) hloaded hinputs).1 hrest
    · rintro ⟨hfits, rfl⟩
      have hfirst := fitsSchema_of_withOrders hfits
      exact ⟨_, (insertOrder_eq_ok_iff hsound hloaded hinput).2 ⟨hfirst, rfl⟩,
        (ih (sound_withOrder hsound hloaded hinput hfirst) hloaded hinputs).2 ⟨hfits, rfl⟩⟩

/-- What is drawn for the orders of a chunk is drawn for its inputs. -/
theorem forall_mem_seedInputs {now : Timestamp} {completed : ℕ} {orders : List SeedDraws}
    {P : OrderDraws → Prop} (h : ∀ draws ∈ orders, P draws.order) :
    ∀ input ∈ seedInputs now completed orders, P input.draws := by
  intro input hinput
  obtain ⟨i, hi, rfl⟩ := List.mem_mapIdx.1 hinput
  exact h _ (List.getElem_mem hi)

theorem forall_mem_streamInputs {stamp : Text} {batch : ℕ} {now : Timestamp}
    {orders : List OrderDraws} {P : OrderDraws → Prop} (h : ∀ draws ∈ orders, P draws) :
    ∀ input ∈ streamInputs stamp batch now orders, P input.draws := by
  intro input hinput
  obtain ⟨i, hi, rfl⟩ := List.mem_mapIdx.1 hinput
  exact h _ (List.getElem_mem hi)

/-- **What a batch of `seed_continuous` does**, and what stops it: rows that do not fit the schema,
and an order that would be delivered before it is shipped. -/
theorem streamBatch_eq_ok_iff (hsound : db.Sound) {batch : ℕ} {now : Timestamp}
    {orders : List OrderDraws} {changes : ChangeDraws} (hstate : loadState render db = .ok state)
    (horders : ∀ draws ∈ orders, draws.Drawn state) (hchanges : changes.Drawn db state)
    {inserted : OltpDatabase} (hinserted : inserted =
      withOrders render state (streamInputs (render.stamp now) batch now orders) db) :
    streamBatch render batch now orders changes db = .ok db' ↔
      inserted.FitsSchema ∧ (inserted.categories ≠ [] ∧ ¬EarlyDelivery inserted now) ∧
        db'.FitsSchema ∧ db' = changed render changes now inserted := by
  subst hinserted
  have hloaded := loaded_of_loadState hstate
  have hdrawn : ∀ input ∈ streamInputs (render.stamp now) batch now orders,
      input.draws.Drawn state := forall_mem_streamInputs horders
  rw [streamBatch, hstate, ok_bind, bind_eq_ok]
  constructor
  · rintro ⟨_, hinsert, hchange⟩
    obtain ⟨hfits, rfl⟩ := (insertOrders_eq_ok_iff hsound hloaded hdrawn).1 hinsert
    obtain ⟨hsound', -⟩ := sound_withOrders hsound hloaded hdrawn hfits
    exact ⟨hfits, (applyChangeEvents_eq_ok_iff hsound' hloaded hchanges).1 hchange⟩
  · rintro ⟨hfits, hchange⟩
    obtain ⟨hsound', -⟩ := sound_withOrders hsound hloaded hdrawn hfits
    exact ⟨_, (insertOrders_eq_ok_iff hsound hloaded hdrawn).2 ⟨hfits, rfl⟩,
      (applyChangeEvents_eq_ok_iff hsound' hloaded hchanges).2 hchange⟩

/-- A transaction keeps the database sound, and what was loaded before valid. -/
theorem sound_transact (hsound : db.Sound) (hloaded : Loaded db.references seeded)
    {t : Transaction} (hdrawn : t.Drawn render seeded db)
    (h : transact render seeded db t = .ok db') :
    db'.Sound ∧ db'.references = db.references := by
  cases t with
  | seedChunk now completed orders =>
    have hinputs : ∀ input ∈ seedInputs now completed orders, input.draws.Drawn seeded :=
      forall_mem_seedInputs fun draws hdraws ↦ (hdrawn draws hdraws).2.2
    obtain ⟨hfits, rfl⟩ := (insertOrders_eq_ok_iff hsound hloaded hinputs).1 h
    exact sound_withOrders hsound hloaded hinputs hfits
  | streamBatch batch now orders changes =>
    obtain ⟨state, hstate, -⟩ := exists_of_bind_eq_ok h
    obtain ⟨horders, hchanges⟩ := hdrawn.2 state hstate
    have hloaded := loaded_of_loadState hstate
    obtain ⟨hinserted, ⟨-, hearly⟩, hfits, rfl⟩ :=
      (streamBatch_eq_ok_iff hsound hstate horders hchanges rfl).1 h
    obtain ⟨hsound', hrefs⟩ := sound_withOrders hsound hloaded
      (forall_mem_streamInputs horders) hinserted
    obtain ⟨hchanged, hsame⟩ := sound_changed hsound' hloaded hchanges hearly hfits
    exact ⟨hchanged, hsame.trans hrefs⟩

/-- Transactions keep the database sound. -/
theorem sound_of_transactions (hsound : db.Sound) (hloaded : Loaded db.references seeded)
    {transactions : List Transaction}
    (hdrawn : Runs.Along (step render seeded) (fun db t ↦ t.Drawn render seeded db) db transactions)
    (hrun : Runs.run (step render seeded) db transactions = some db') :
    db'.Sound ∧ Loaded db'.references seeded := by
  refine Runs.run_invariant (fun db ↦ db.Sound ∧ Loaded db.references seeded)
    (fun db t next hinv ht hstep ↦ ?_) ⟨hsound, hloaded⟩ hdrawn hrun
  rw [step] at hstep
  split at hstep
  · rename_i hok
    obtain rfl := Option.some.inj hstep
    obtain ⟨hsound, hrefs⟩ := sound_transact hinv.1 hinv.2 ht hok
    exact ⟨hsound, hrefs ▸ hinv.2⟩
  · obtain rfl := Option.some.inj hstep
    exact hinv

/-- **The source is sound, whatever the generator does to it.** From a baseline, after any
transactions of a seeding process and of continuous ones, in any order and with any of them refused:
every order is complete, with the rows it refers to; the rows fit the schema; there is one
delete marker, and no order uses it; and what the seeding process has loaded is still there. -/
theorem soundSource_of_run (hbaseline : Baseline db seeded) {transactions : List Transaction}
    (hdrawn : Runs.Along (step render seeded) (fun db t ↦ t.Drawn render seeded db) db transactions)
    (hrun : Runs.run (step render seeded) db transactions = some db') :
    db'.Sound ∧ Loaded db'.references seeded :=
  sound_of_transactions (sound_of_baseline hbaseline) hbaseline.state hdrawn hrun

end Transactions

/-! ### A small source -/

/-- Renders an address by its city. -/
def smallRendering : Rendering where
  addressJson address := "\x7b\"city\": \"".toList ++ address.payload.fields.city.getD [] ++
    "\"\x7d".toList
  tierJson name := "\x7b\"tier\": \"".toList ++ name.map Char.toLower ++ "\"\x7d".toList
  stamp now := Nat.toDigits 10 now.toNat

/-- A public id. -/
def publicId (n : ℤ) : Text :=
  "00000000-0000-4000-8000-".toList ++ padded 12 n.toNat

/-- A customer, a variant of 10 cents, and the seeded vouchers. -/
def smallDatabase : OltpDatabase where
  appUsers :=
    [⟨1, 0, ⟨publicId 1, "user_0001".toList, "user_0001@example.com".toList, "Minh".toList,
      "Nguyen".toList, "0910000000".toList, "active".toList, some 0, none⟩⟩]
  userAddresses :=
    [⟨1, 0, ⟨some 1, ⟨"shipping".toList, "Minh Nguyen".toList, "0910000000".toList,
      "1 Le Loi".toList, none, none, "Da Nang".toList, none, none, "Vietnam".toList⟩, some 0⟩⟩]
  shops := [⟨1, 0, ⟨publicId 1, "Shop 1".toList, "shop-1".toList, "active".toList, some 0⟩⟩]
  categories := [⟨1, 0, ⟨none, "Books".toList, "books".toList, some true, some 0⟩⟩]
  products :=
    [⟨1, 0, ⟨publicId 1, some 1, some 1, "SKU-0001".toList, "product-0001".toList,
      "Product 1".toList, none, "\x7b\x7d".toList, "[]".toList, "active".toList, some false,
      some 0⟩⟩]
  productVariants :=
    [⟨1, 0, ⟨publicId 1, some 1, "SKU-0001-1".toList, "Standard".toList,
      "\x7b\"tier\": \"standard\"\x7d".toList, some 10, none, "VND".toList, some 5, some 0, none,
      "[]".toList, "active".toList, some true, some 0⟩⟩]
  vouchers := seedVouchers 1 2 3 4 0
  orders := []
  orderItems := []
  orderVouchers := []
  payments := []
  shipments := []

/-- Its customer. -/
def smallUser : RuntimeUser :=
  ⟨1, 1, "\x7b\"city\": \"Da Nang\"\x7d".toList, 0⟩

/-- Its variant. -/
def smallVariant : Variant :=
  ⟨1, 1, 1, "Product 1".toList, "SKU-0001".toList, "Standard".toList, "SKU-0001-1".toList, 10⟩

/-- What is loaded of it. -/
def smallState : RuntimeState :=
  ⟨[smallUser], [smallVariant], [1, 2, 3]⟩

/-- A paid order that is not delivered yet. -/
def smallOrder (id : ℤ) : OrderDraws where
  orderId := id
  publicOrderId := publicId id
  user := smallUser
  lines := [⟨id, smallVariant, 1, 3⟩]
  shippingUnits := 50000
  discountUnits := 20000
  paymentStatus := .paid
  orderVoucherId := id
  voucherId := 1
  paymentId := id
  publicPaymentId := publicId id
  paymentMethod := "cod".toList
  paidMinutes := 1
  shipmentId := id
  publicShipmentId := publicId id
  carrier := "GHN".toList
  deliveryDays := none

/-- Changes that leave the price. -/
def smallChanges (markerId : ℤ) : ChangeDraws where
  user := smallUser
  phoneNumber := 10000000
  houseNumber := 1
  variant := smallVariant
  pricePercent := 101
  stockChange := 0
  productId := 1
  shopId := 1
  categoryId := 1
  markerId := markerId

/-- A chunk of one seeded order. -/
def smallSeed : Transaction :=
  .seedChunk 0 0 [⟨1, 0, smallOrder 100⟩]

/-- The batches of one order, ten seconds apart. -/
def smallBatch (n : ℕ) : Transaction :=
  .streamBatch n (10000000 * n) [smallOrder n] (smallChanges (n + 4))

theorem baseline_small : Baseline smallDatabase smallState where
  fits := ⟨fun t ↦ by cases t <;> decide, by decide⟩
  orders := rfl
  orderItems := rfl
  orderVouchers := rfl
  payments := rfl
  shipments := rfl
  shop := by decide
  variants := List.forall_mem_singleton.2 ⟨by decide, fun _ hprice ↦ (by cases hprice), by decide⟩
  vouchers := ⟨1, 2, 3, 4, 0, rfl⟩
  state := by
    have hload : loadState smallRendering smallDatabase = .ok smallState := rfl
    exact loaded_of_loadState hload

/-- Two batches after a seeded order. -/
theorem soundSource_of_run_small : ∃ db, Runs.run (step smallRendering smallState) smallDatabase
    [smallSeed, smallBatch 1, smallBatch 2] = some db ∧
      db.Sound ∧ Loaded db.references smallState := by
  have hrun : (Runs.run (step smallRendering smallState) smallDatabase
      [smallSeed, smallBatch 1, smallBatch 2]).isSome = true := by
    decide +kernel
  obtain ⟨db, hdb⟩ := Option.isSome_iff_exists.1 hrun
  exact ⟨db, hdb, soundSource_of_run baseline_small (by decide +kernel) hdb⟩

end LakehousePipeline.Generator
