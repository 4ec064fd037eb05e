import LakehousePipeline.Generator.Scenarios

/-!
# Orders that are streamed

Only seeded orders are deleted. An order of the continuous generator stays, with its items, its
vouchers and its amounts, and its status only moves forward (`kept_of_run`).

Where there is a category, a batch of the continuous generator is refused exactly if a row does not
fit the schema (a key, a public id or an order number is taken, or a number is out of range) or if
the order that has waited longest would be delivered before it is shipped (`commits_iff_of_run`):
`_insert_shipment` writes a time of shipping that is a day ahead, and `advance_order` does not wait
for it. Nothing is changed then, so the next batch comes upon the same order, until that day is over
(`stuck_of_run`).

## Two facts about the queue

The order that has waited longest is the open order with the least `updated_at`, and a batch gives
it the time of the batch. So among the open orders it goes to the end, and an order comes up again
after all others that were open. In the ten seconds between two batches a few orders are inserted
and one moves on; an order that is paid at once starts at `confirmed` and is due for its delivery
three turns later.

* `kept_of_run` rests on the pattern of the numbers: a seeded order is `ORD-` and six digits, and
  the number of a streamed one begins with `ORD-RT-`, so `delete_baseline_order` never takes it.
* `stuck_of_run` rests on the transaction: the three updates of `advance_order` are undone with
  everything else in the batch, so the time of the order does not change and it stays the first.
-/

namespace LakehousePipeline.Generator

open Checks KeyedTables

variable {render : Rendering} {seeded state : RuntimeState} {db db' : OltpDatabase}

/-! ### Orders that stay -/

/-- The texts tell the statuses apart. -/
theorem OrderStatus.text_injective : Function.Injective OrderStatus.text := by
  intro status status' h
  cases status <;> cases status' <;> first | rfl | exact absurd h (by decide)

/-- **An order later on**: its status has moved forward, and nothing else but the payment status and
the time has changed. -/
structure Continues (order order' : Order) : Prop where
  key : order'.key = order.key
  createdAt : order'.createdAt = order.createdAt
  payload : order'.payload = { order.payload with
    orderStatus := order'.payload.orderStatus
    paymentStatus := order'.payload.paymentStatus
    updatedAt := order'.payload.updatedAt }
  status : ∀ status, order.payload.orderStatus = some (OrderStatus.text status) →
    ∃ n, order'.payload.orderStatus = some (nextOrderStatus^[n] status).text

/-- An order continues itself. -/
theorem Continues.refl (order : Order) : Continues order order :=
  ⟨rfl, rfl, rfl, fun _ h ↦ ⟨0, h⟩⟩

/-- Later on, and later again. -/
theorem Continues.trans {order order' order'' : Order} (h : Continues order order')
    (h' : Continues order' order'') : Continues order order'' where
  key := h'.key.trans h.key
  createdAt := h'.createdAt.trans h.createdAt
  payload := by
    rw [h'.payload, h.payload]
  status status hstatus := by
    obtain ⟨n, hn⟩ := h.status status hstatus
    obtain ⟨m, hm⟩ := h'.status _ hn
    exact ⟨m + n, by rw [hm, Function.iterate_add_apply]⟩

/-- It keeps its number. -/
theorem Continues.orderNumber {order order' : Order} (h : Continues order order') :
    order'.payload.orderNumber = order.payload.orderNumber := by
  rw [h.payload]

/-- **An order stays**, with its items and its vouchers. -/
def Kept (db db' : OltpDatabase) (order : Order) : Prop :=
  ∃ order' ∈ db'.orders, Continues order order' ∧ db'.itemsOf order.key = db.itemsOf order.key ∧
    db'.usesOf order.key = db.usesOf order.key

/-- Kept by one transaction and by the next. -/
theorem Kept.trans {db'' : OltpDatabase} {order : Order} (h : Kept db db' order)
    (h' : ∀ order' ∈ db'.orders, Continues order order' → Kept db' db'' order') :
    Kept db db'' order := by
  obtain ⟨order', horder', hcontinues, hitems, huses⟩ := h
  obtain ⟨order'', horder'', hcontinues', hitems', huses'⟩ := h' order' horder' hcontinues
  rw [hcontinues.key] at hitems' huses'
  exact ⟨order'', horder'', hcontinues.trans hcontinues', hitems'.trans hitems,
    huses'.trans huses⟩

/-- An order that is there when others are inserted. -/
theorem sameRows_withOrders {inputs : List OrderInput} {order : Order} (horder : order ∈ db.orders)
    (hfits : (withOrders render state inputs db).FitsSchema) :
    order ∈ (withOrders render state inputs db).orders ∧
      SameRows db (withOrders render state inputs db) order.key := by
  induction inputs generalizing db with
  | nil => exact ⟨horder, rfl, rfl, rfl, rfl⟩
  | cons input inputs ih =>
    rw [withOrders] at hfits ⊢
    have hfirst := fitsSchema_of_withOrders hfits
    have hne : input.draws.orderId ≠ order.key := by
      have hkeys := (nodup_map_append_singleton.1 (hfirst.keys .orders)).2
      exact fun heq ↦ hkeys (List.mem_map.2 ⟨order, horder, heq.symm⟩)
    obtain ⟨hmem, hsame⟩ := ih (List.mem_append_left _ horder) hfits
    exact ⟨hmem, (sameRows_withOrder hne).trans hsame⟩

/-- The order that is moved on moves one status. -/
theorem continues_advancedOrder {order : Order} {status : OrderStatus} {changedAt : Timestamp}
    (h : openStatus order = some status) :
    Continues order (advancedOrder (nextOrderStatus status) changedAt order) := by
  refine ⟨rfl, rfl, rfl, fun status' hstatus ↦ ⟨1, ?_⟩⟩
  rw [openStatus] at h
  have hfound : order.payload.orderStatus = some status.text := by simpa using List.find?_some h
  obtain rfl := OrderStatus.text_injective (Option.some.inj (hstatus.symm.trans hfound))
  rfl

/-- The order that moves on is kept, and so are the others. -/
theorem kept_moved (hfits : db.FitsSchema) {order : Order} (horder : order ∈ db.orders)
    (changedAt : Timestamp) : Kept db (moved db changedAt) order := by
  rw [moved]
  split
  · exact ⟨order, horder, Continues.refl order, rfl, rfl⟩
  · rename_i next hnext
    refine ⟨_, List.mem_map_of_mem horder, ?_, rfl, rfl⟩
    split
    · rename_i hkey
      obtain ⟨first, hfirst, hmap⟩ := Option.bind_eq_some_iff.1 hnext
      obtain ⟨status, hstatus, rfl⟩ := Option.map_eq_some_iff.1 hmap
      have hmem : first ∈ db.orders := List.mem_of_mem_filter (List.argmin_mem hfirst)
      have hsame := List.inj_on_of_nodup_map (hfits.keys .orders) horder hmem
        (of_decide_eq_true hkey)
      exact continues_advancedOrder (hsame ▸ hstatus)
    · exact Continues.refl order

/-- Only seeded orders are deleted. -/
theorem kept_deleteBaselineOrder (hfits : db.FitsSchema) {order : Order}
    (horder : order ∈ db.orders) (hnumber : order.payload.orderNumber.any isBaselineNumber = false)
    (excludeOrderId : Option ℤ) : Kept db (deleteBaselineOrder db excludeOrderId).1 order := by
  rw [deleteBaselineOrder]
  split
  · exact ⟨order, horder, Continues.refl order, rfl, rfl⟩
  · rename_i first hfirst
    obtain ⟨hmem, hbaseline⟩ := List.mem_filter.1 (List.argmin_mem hfirst)
    have hne : order.key ≠ first.key := by
      intro hkey
      obtain rfl := List.inj_on_of_nodup_map (hfits.keys .orders) horder hmem hkey
      rw [hnumber, Bool.false_and] at hbaseline
      cases hbaseline
    exact ⟨order, List.mem_filter.2 ⟨horder, decide_eq_true hne⟩, Continues.refl order,
      childrenOf_cascade hne, childrenOf_cascade hne⟩

/-- The numbers of streamed orders are not those of seeded ones. -/
theorem isBaselineNumber_realtimeNumber (stamp : Text) (batch idx : ℕ) :
    isBaselineNumber (realtimeNumber stamp batch idx) = false := by
  have hdrop : (realtimeNumber stamp batch idx).drop 4 = 'R' :: 'T' :: '-' ::
      (stamp ++ '-' :: padded 4 batch ++ '-' :: padded 3 idx) := rfl
  have hletter : ('0' ≤ 'R' && 'R' ≤ '9') = false := rfl
  rw [isBaselineNumber, hdrop, List.all_cons, hletter, Bool.false_and, Bool.and_false]

/-- **A batch of changes keeps the orders that are not seeded.** -/
theorem kept_changed (hsound : db.Sound) {refs : References} (hloaded : Loaded refs state)
    {draws : ChangeDraws} {seen : OltpDatabase} (hdrawn : draws.Drawn seen state)
    {changedAt : Timestamp} (hrange : RepricedInRange draws changedAt db)
    (hearly : ¬EarlyDelivery db changedAt) {order : Order}
    (horder : order ∈ db.orders)
    (hnumber : order.payload.orderNumber.any isBaselineNumber = false) :
    Kept db (changed render draws changedAt db) order := by
  have hupdated : (updatedRows draws changedAt db).Sound :=
    hsound.of_updatesRows (updatesRows_updatedRows hloaded hdrawn hrange)
  have hmoved : Kept (updatedRows draws changedAt db) (moved (updatedRows draws changedAt db)
    changedAt) order := kept_moved hupdated.fits horder changedAt
  exact hmoved.trans fun order' horder' hcontinues ↦ kept_deleteBaselineOrder
    (sound_moved hupdated hearly).fits horder' (by rw [hcontinues.orderNumber, hnumber]) _

/-- So does a transaction. -/
theorem kept_transact (hsound : db.Sound) (hloaded : Loaded db.references seeded)
    {t : Transaction} (hdrawn : t.Drawn render seeded db)
    (h : transact render seeded db t = .ok db') {order : Order} (horder : order ∈ db.orders)
    (hnumber : order.payload.orderNumber.any isBaselineNumber = false) : Kept db db' order := by
  cases t with
  | seedChunk now completed orders =>
    obtain ⟨hfits, rfl⟩ :=
      (insertOrders_eq_ok_iff hsound hloaded (forall_mem_seedInputs fun draws hdraws ↦
        (hdrawn draws hdraws).2.2)).1 h
    obtain ⟨hmem, hsame⟩ := sameRows_withOrders horder hfits
    exact ⟨order, hmem, Continues.refl order, hsame.items, hsame.uses⟩
  | streamBatch batch now orders changes =>
    obtain ⟨state, hstate, -⟩ := exists_of_bind_eq_ok h
    obtain ⟨horders, hchanges⟩ := hdrawn.2 state hstate
    have hloaded := loaded_of_loadState hstate
    obtain ⟨hinserted, ⟨-, hearly⟩, hfits, rfl⟩ :=
      (streamBatch_eq_ok_iff hsound hstate horders hchanges rfl).1 h
    have hrange := repricedInRange_of_fitsSchema hfits
    obtain ⟨hsound', -⟩ := sound_withOrders hsound hloaded (forall_mem_streamInputs horders)
      hinserted
    obtain ⟨hmem, hsame⟩ := sameRows_withOrders horder hinserted
    obtain ⟨order', horder', hcontinues, hitems, huses⟩ :=
      kept_changed hsound' hloaded hchanges hrange hearly hmem hnumber
    exact ⟨order', horder', hcontinues, hitems.trans hsame.items, huses.trans hsame.uses⟩

/-- **A streamed order stays.** Whatever the generator has done and does after it: the order is
there with its items and its vouchers, its amounts are the same, and its status has moved forward
along the lifecycle. -/
theorem kept_of_run (hbaseline : Baseline db seeded) {before after : List Transaction}
    (hdrawn : Runs.Along (step render seeded) (fun db t ↦ t.Drawn render seeded db) db
      (before ++ after))
    {db₁ db₂ : OltpDatabase} (hbefore : Runs.run (step render seeded) db before = some db₁)
    (hafter : Runs.run (step render seeded) db₁ after = some db₂) {order : Order}
    (horder : order ∈ db₁.orders)
    (hnumber : ∃ stamp batch idx,
      order.payload.orderNumber = some (realtimeNumber stamp batch idx)) :
    Kept db₁ db₂ order := by
  obtain ⟨hsound, hloaded⟩ := sound_of_transactions (sound_of_baseline hbaseline) hbaseline.state
    hdrawn.of_append hbefore
  have hstreamed : order.payload.orderNumber.any isBaselineNumber = false := by
    obtain ⟨stamp, batch, idx, heq⟩ := hnumber
    rw [heq]
    exact isBaselineNumber_realtimeNumber stamp batch idx
  refine (Runs.run_invariant
    (fun db ↦ (db.Sound ∧ Loaded db.references seeded) ∧ Kept db₁ db order)
    (fun db t next hinv ht hstep ↦ ?_)
    ⟨⟨hsound, hloaded⟩, order, horder, Continues.refl order, rfl, rfl⟩
    (hdrawn.of_append_run hbefore) hafter).2
  obtain ⟨⟨hsound, hloaded⟩, hkept⟩ := hinv
  rw [step] at hstep
  split at hstep
  · rename_i hok
    obtain rfl := Option.some.inj hstep
    obtain ⟨hsound', hrefs⟩ := sound_transact hsound hloaded ht hok
    exact ⟨⟨hsound', hrefs ▸ hloaded⟩, hkept.trans fun order' horder' hcontinues ↦
      kept_transact hsound hloaded ht hok horder' (by rw [hcontinues.orderNumber, hstreamed])⟩
  · obtain rfl := Option.some.inj hstep
    exact ⟨⟨hsound, hloaded⟩, hkept⟩

/-- A streamed order, two batches later. -/
theorem kept_of_run_small : ∃ db₁ db₂ order,
    Runs.run (step smallRendering smallState) smallDatabase [smallBatch 1] = some db₁ ∧
      Runs.run (step smallRendering smallState) db₁ [smallBatch 2, smallBatch 3] = some db₂ ∧
      order ∈ db₁.orders ∧ Kept db₁ db₂ order := by
  have hrun : (Runs.run (step smallRendering smallState) smallDatabase [smallBatch 1]).any
      (fun db ↦
        (Runs.run (step smallRendering smallState) db [smallBatch 2, smallBatch 3]).isSome &&
        db.orders.any fun order ↦ order.payload.orderNumber =
          some (realtimeNumber "10000000".toList 1 1)) = true := by
    decide +kernel
  obtain ⟨db₁, hdb₁, hboth⟩ := (Option.any_eq_true _ _).1 hrun
  obtain ⟨hsome, horders⟩ := Bool.and_eq_true_iff.1 hboth
  obtain ⟨db₂, hdb₂⟩ := Option.isSome_iff_exists.1 hsome
  obtain ⟨order, horder, hnumber⟩ := List.any_eq_true.1 horders
  exact ⟨db₁, db₂, order, hdb₁, hdb₂, horder, kept_of_run baseline_small
    (by decide +kernel) hdb₁ hdb₂ horder ⟨_, _, _, of_decide_eq_true hnumber⟩⟩

/-! ### Batches that are refused -/

/-- Inserted orders leave the variants, the categories and the vouchers. -/
theorem catalog_withOrders {inputs : List OrderInput} :
    (withOrders render state inputs db).productVariants = db.productVariants ∧
      (withOrders render state inputs db).categories = db.categories ∧
      (withOrders render state inputs db).vouchers = db.vouchers := by
  induction inputs generalizing db with
  | nil => exact ⟨rfl, rfl, rfl⟩
  | cons input inputs ih => exact ih

/-- The vouchers before the marker is replaced are those of before the batch. -/
theorem vouchers_unmarked {draws : ChangeDraws} {changedAt : Timestamp}
    {excludeOrderId : Option ℤ} :
    (deleteBaselineOrder (moved (updatedRows draws changedAt db) changedAt)
      excludeOrderId).1.vouchers = db.vouchers := by
  rw [deleteBaselineOrder, moved]
  split <;> split <;> rfl

/-- The rows fit after the changes if they did before, the new numbers of the variant are in range
and the key of the delete marker is new. -/
theorem fitsSchema_changed_iff {inserted : OltpDatabase} (hsound : inserted.Sound)
    {refs : References} (hloaded : Loaded refs state) {changes : ChangeDraws}
    {seen : OltpDatabase} (hdrawn : changes.Drawn seen state) {now : Timestamp}
    (hearly : ¬EarlyDelivery inserted now) :
    (changed render changes now inserted).FitsSchema ↔
      RepricedInRange changes now inserted ∧ changes.markerId ∉
        (inserted.vouchers.filter fun voucher ↦
          !isDeleteMarker voucher).map fun voucher ↦ voucher.key := by
  have hmarker (hrange : RepricedInRange changes now inserted) :
      (changed render changes now inserted).FitsSchema ↔ changes.markerId ∉
        (inserted.vouchers.filter fun voucher ↦
          !isDeleteMarker voucher).map fun voucher ↦ voucher.key := by
    rw [changed, fitsSchema_withMarker_iff
      (sound_unmarked hsound hloaded hdrawn hrange hearly _).fits (inRange_markerRow _),
      vouchers_unmarked]
    rfl
  constructor
  · intro hfits
    have hrange := repricedInRange_of_fitsSchema hfits
    exact ⟨hrange, (hmarker hrange).1 hfits⟩
  · rintro ⟨hrange, hnew⟩
    exact (hmarker hrange).2 hnew

/-- A batch is committed if its rows fit the schema, and no delivery is early. -/
theorem exists_streamBatch_eq_ok_iff (hsound : db.Sound) (hstate : loadState render db = .ok state)
    {batch : ℕ} {now : Timestamp} {orders : List OrderDraws} {changes : ChangeDraws}
    (horders : ∀ draws ∈ orders, draws.Drawn state) (hchanges : changes.Drawn db state)
    {inserted : OltpDatabase} (hinserted : inserted =
      withOrders render state (streamInputs (render.stamp now) batch now orders) db) :
    (∃ after, streamBatch render batch now orders changes db = .ok after) ↔
      inserted.FitsSchema ∧ RepricedInRange changes now db ∧ db.categories ≠ [] ∧
        ¬EarlyDelivery inserted now ∧ changes.markerId ∉
          (db.vouchers.filter fun voucher ↦
            !isDeleteMarker voucher).map fun voucher ↦ voucher.key := by
  have hloaded := loaded_of_loadState hstate
  obtain ⟨hvariants, hcategories, hvouchers⟩ : inserted.productVariants = db.productVariants ∧
      inserted.categories = db.categories ∧ inserted.vouchers = db.vouchers :=
    hinserted ▸ catalog_withOrders
  have hchanged (hfits : inserted.FitsSchema) (hearly : ¬EarlyDelivery inserted now) :
      (changed render changes now inserted).FitsSchema ↔ RepricedInRange changes now db ∧
        changes.markerId ∉ (db.vouchers.filter fun voucher ↦
          !isDeleteMarker voucher).map fun voucher ↦ voucher.key := by
    have hsound' : inserted.Sound := by
      rw [hinserted] at hfits ⊢
      exact (sound_withOrders hsound hloaded (forall_mem_streamInputs horders) hfits).1
    rw [fitsSchema_changed_iff hsound' hloaded hchanges hearly, RepricedInRange, hvariants,
      hvouchers]
    rfl
  constructor
  · rintro ⟨after, hafter⟩
    obtain ⟨hfits, ⟨hne, hearly⟩, hafterFits, rfl⟩ :=
      (streamBatch_eq_ok_iff hsound hstate horders hchanges hinserted).1 hafter
    obtain ⟨hrange, hnew⟩ := (hchanged hfits hearly).1 hafterFits
    exact ⟨hfits, hrange, hcategories ▸ hne, hearly, hnew⟩
  · rintro ⟨hfits, hrange, hne, hearly, hnew⟩
    have hafter := (hchanged hfits hearly).2 ⟨hrange, hnew⟩
    exact ⟨_, (streamBatch_eq_ok_iff hsound hstate horders hchanges hinserted).2
      ⟨hfits, ⟨hcategories.symm ▸ hne, hearly⟩, hafter, rfl⟩⟩

/-- **When a batch is committed**, in any state the generator has led to and can load: exactly if
the rows of its orders fit the schema, the new numbers of the variant are in range, there is a
category, the order that has waited longest would not be delivered before it is shipped, and the key
of the delete marker is not one of another voucher. -/
theorem commits_iff_of_run (hbaseline : Baseline db seeded) {transactions : List Transaction}
    (hdrawn : Runs.Along (step render seeded) (fun db t ↦ t.Drawn render seeded db) db transactions)
    (hrun : Runs.run (step render seeded) db transactions = some db')
    (hstate : loadState render db' = .ok state) {batch : ℕ} {now : Timestamp}
    {orders : List OrderDraws} {changes : ChangeDraws}
    (horders : ∀ draws ∈ orders, draws.Drawn state) (hchanges : changes.Drawn db' state) :
    (∃ after, transact render seeded db' (.streamBatch batch now orders changes) = .ok after) ↔
      (withOrders render state (streamInputs (render.stamp now) batch now orders) db').FitsSchema ∧
        RepricedInRange changes now db' ∧ db'.categories ≠ [] ∧
        ¬EarlyDelivery
          (withOrders render state (streamInputs (render.stamp now) batch now orders) db') now ∧
        changes.markerId ∉ (db'.vouchers.filter fun voucher ↦
          !isDeleteMarker voucher).map fun voucher ↦ voucher.key := by
  obtain ⟨hsound, -⟩ := sound_of_transactions (sound_of_baseline hbaseline) hbaseline.state hdrawn
    hrun
  exact exists_streamBatch_eq_ok_iff hsound hstate horders hchanges rfl

/-- The third batch on its own: its rows fit, and its delivery is early. -/
theorem commits_iff_of_run_small : ∃ db,
    Runs.run (step smallRendering smallState) smallDatabase [smallBatch 1, smallBatch 2] = some db ∧
      ((∃ after, transact smallRendering smallState db (smallBatch 3) = .ok after) ↔
        (withOrders smallRendering smallState
          (streamInputs (smallRendering.stamp 30000000) 3 30000000 [smallOrder 3]) db).FitsSchema ∧
        RepricedInRange (smallChanges 7) 30000000 db ∧ db.categories ≠ [] ∧
        ¬EarlyDelivery (withOrders smallRendering smallState
          (streamInputs (smallRendering.stamp 30000000) 3 30000000 [smallOrder 3]) db)
          30000000 ∧
        (smallChanges 7).markerId ∉ (db.vouchers.filter fun voucher ↦
          !isDeleteMarker voucher).map fun voucher ↦ voucher.key) := by
  have hrun : (Runs.run (step smallRendering smallState) smallDatabase
      [smallBatch 1, smallBatch 2]).any (fun db ↦ decide
        (loadState smallRendering db = .ok smallState ∧
          (smallChanges 7).Drawn db smallState)) = true := by
    decide +kernel
  obtain ⟨db, hdb, hloaded⟩ := (Option.any_eq_true _ _).1 hrun
  obtain ⟨hstate, hchanges⟩ := of_decide_eq_true hloaded
  exact ⟨db, hdb, commits_iff_of_run baseline_small (by decide +kernel) hdb hstate
    (by decide) hchanges⟩

/-! ### The queue stands still -/

/-- **An order that is overdue**: it is the next to move on, to be delivered, and its shipment is to
be shipped at some later time. -/
def Overdue (db : OltpDatabase) (since shipped : Timestamp) : Prop :=
  ∃ order ∈ firstOpen db, order.payload.orderStatus = some OrderStatus.shipped.text ∧
    order.payload.updatedAt = some since ∧ ∃ shipment ∈ db.shipmentsOf order.key,
      shipment.payload.deliveredAt = none ∧ shipment.payload.shippedAt = some shipped

instance (since shipped : Timestamp) : Decidable (Overdue db since shipped) :=
  inferInstanceAs (Decidable (∃ order ∈ firstOpen db, _ ∧ _ ∧ ∃ shipment ∈ _, _))

/-- A batch in between. -/
def Transaction.Between (since shipped : Timestamp) : Transaction → Prop
  | .seedChunk _ _ _ => False
  | .streamBatch _ now _ _ => since < now ∧ now < shipped

/-- The headers of inserted orders come after the others. -/
theorem orders_withOrders {inputs : List OrderInput} :
    (withOrders render state inputs db).orders = db.orders ++ inputs.map fun input ↦
      orderRow input.draws input.orderNumber (max input.createdAt input.draws.user.createdAt) := by
  induction inputs generalizing db with
  | nil => exact (List.append_nil _).symm
  | cons input inputs ih =>
    rw [withOrders, ih, withOrder, List.map_cons, List.append_assoc, List.singleton_append]

/-- The next order to move on is the next one still after newer ones are inserted. -/
theorem firstOpen_append {order : Order} {added : List Order} (h : firstOpen db = some order)
    (hkeys : (db'.orders.map fun row ↦ row.key).Nodup) (horders : db'.orders = db.orders ++ added)
    (hlater : ∀ row ∈ added, order.payload.updatedAt.getD 0 < row.payload.updatedAt.getD 0) :
    firstOpen db' = some order := by
  obtain ⟨hmem, hopen⟩ := List.mem_filter.1 (List.argmin_mem h)
  have hle : ∀ row ∈ db'.orders, (openStatus row).isSome = true →
      waitingSince order ≤ waitingSince row := by
    intro row hrow hrowOpen
    rw [horders] at hrow
    rcases List.mem_append.1 hrow with hold | hnew
    · exact List.le_of_mem_argmin (List.mem_filter.2 ⟨hold, hrowOpen⟩) h
    · exact (Prod.Lex.toLex_le_toLex.2 (Or.inl (hlater row hnew)))
  have hin : order ∈ db'.orders.filter fun row ↦ (openStatus row).isSome :=
    List.mem_filter.2 ⟨horders ▸ List.mem_append_left _ hmem, hopen⟩
  cases hfirst : firstOpen db' with
  | none =>
    rw [List.argmin_eq_none.1 hfirst] at hin
    cases hin
  | some first =>
    obtain ⟨hfirstMem, hfirstOpen⟩ := List.mem_filter.1 (List.argmin_mem hfirst)
    have hsame : waitingSince first = waitingSince order :=
      le_antisymm (List.le_of_mem_argmin hin hfirst) (hle first hfirstMem hfirstOpen)
    have hkey : first.key = order.key := congrArg (fun since ↦ (ofLex since).2) hsame
    rw [List.inj_on_of_nodup_map hkeys hfirstMem (horders ▸ List.mem_append_left _ hmem) hkey]

/-- The delivery of an overdue order is early in every batch in between. -/
theorem earlyDelivery_withOrders {since shipped now : Timestamp} (h : Overdue db since shipped)
    (hnow : now < shipped) {inputs : List OrderInput}
    (hfits : (withOrders render state inputs db).FitsSchema)
    (hlater : ∀ input ∈ inputs, since < input.createdAt) :
    EarlyDelivery (withOrders render state inputs db) now := by
  obtain ⟨order, hfirst, hstatus, hsince, shipment, hshipment, hdelivered, hshipped⟩ := h
  have hmem : order ∈ db.orders := List.mem_of_mem_filter (List.argmin_mem hfirst)
  obtain ⟨-, hsame⟩ := sameRows_withOrders hmem hfits
  have hfirst' : firstOpen (withOrders render state inputs db) = some order := by
    refine firstOpen_append hfirst (hfits.keys .orders) orders_withOrders fun row hrow ↦ ?_
    obtain ⟨input, hinput, rfl⟩ := List.mem_map.1 hrow
    rw [hsince]
    exact lt_of_lt_of_le (hlater input hinput) (le_max_left _ _)
  have hopen : openStatus order = some .shipped := by
    rw [openStatus, hstatus]
    decide
  refine ⟨(order.key, .delivered), ?_, shipment, ?_, rfl, hdelivered, shipped, hshipped, hnow⟩
  · rw [nextToMove, hfirst', Option.bind_some, hopen]
    rfl
  · rw [hsame.shipments]
    exact hshipment

/-- The batch gets to the order that moves on: the rows of its orders fit the schema, the new
numbers of its variant are in range, and there is a category to update. -/
structure GetsToAdvance (render : Rendering) (db : OltpDatabase) (state : RuntimeState) (batch : ℕ)
    (now : Timestamp) (orders : List OrderDraws) (changes : ChangeDraws) : Prop where
  fits :
    (withOrders render state (streamInputs (render.stamp now) batch now orders) db).FitsSchema
  inRange : RepricedInRange changes now db
  categories : db.categories ≠ []

instance (state : RuntimeState) (batch : ℕ) (now : Timestamp) (orders : List OrderDraws)
    (changes : ChangeDraws) :
    Decidable (GetsToAdvance render db state batch now orders changes) :=
  decidable_of_iff (_ ∧ _ ∧ _)
    ⟨fun h ↦ ⟨h.1, h.2.1, h.2.2⟩, fun h ↦ ⟨h.fits, h.inRange, h.categories⟩⟩

/-- The transaction gets that far. -/
def Transaction.GetsToAdvance (render : Rendering) (db : OltpDatabase) : Transaction → Prop
  | .seedChunk _ _ _ => False
  | .streamBatch batch now orders changes => ∃ state, loadState render db = .ok state ∧
      Generator.GetsToAdvance render db state batch now orders changes

/-- **The transaction is refused**, and by `chk_shipment_time_order` if it gets that far. -/
structure Transaction.Refused (render : Rendering) (seeded : RuntimeState) (db : OltpDatabase)
    (t : Transaction) : Prop where
  refused : ∃ error, transact render seeded db t = .error error
  timeOrder : t.GetsToAdvance render db → transact render seeded db t = .error .shipmentTimeOrder

/-- A refused transaction leaves the database. -/
theorem Transaction.Refused.step_eq {t : Transaction} (h : t.Refused render seeded db) :
    step render seeded db t = some db := by
  obtain ⟨error, herror⟩ := h.refused
  rw [step, herror]

/-- In between, every batch is refused. -/
theorem refused_of_overdue (hsound : db.Sound) {since shipped : Timestamp}
    (hoverdue : Overdue db since shipped) {t : Transaction} (hdrawn : t.Drawn render seeded db)
    (hbetween : t.Between since shipped) : t.Refused render seeded db := by
  cases t with
  | seedChunk now completed orders => cases hbetween
  | streamBatch batch now orders changes =>
    have hearly (state : RuntimeState)
        (hfits : (withOrders render state (streamInputs (render.stamp now) batch now orders)
          db).FitsSchema) : EarlyDelivery
            (withOrders render state (streamInputs (render.stamp now) batch now orders) db)
              now := by
      refine earlyDelivery_withOrders hoverdue hbetween.2 hfits fun input hinput ↦ ?_
      obtain ⟨i, hi, rfl⟩ := List.mem_mapIdx.1 hinput
      exact hbetween.1
    constructor
    case refused =>
      cases hresult : transact render seeded db (.streamBatch batch now orders changes) with
      | error error => exact ⟨error, rfl⟩
      | ok after =>
        obtain ⟨state, hstate, -⟩ := exists_of_bind_eq_ok hresult
        obtain ⟨horders, hchanges⟩ := hdrawn.2 state hstate
        obtain ⟨hfits, ⟨-, hnot⟩, -⟩ :=
          (streamBatch_eq_ok_iff hsound hstate horders hchanges rfl).1 hresult
        exact absurd (hearly state hfits) hnot
    case timeOrder =>
      rintro ⟨state, hstate, hfits, hrange, hcategories⟩
      obtain ⟨horders, hchanges⟩ := hdrawn.2 state hstate
      have hloaded := loaded_of_loadState hstate
      have hinputs : ∀ input ∈ streamInputs (render.stamp now) batch now orders,
          input.draws.Drawn state := forall_mem_streamInputs horders
      obtain ⟨hsound', -⟩ := sound_withOrders hsound hloaded hinputs hfits
      have hinsert := (insertOrders_eq_ok_iff hsound hloaded hinputs).2 ⟨hfits, rfl⟩
      rw [transact, streamBatch, hstate, ok_bind, hinsert, ok_bind]
      refine applyChangeEvents_of_early hsound' hloaded hchanges ?_ ?_ (hearly state hfits)
      · rwa [RepricedInRange, catalog_withOrders.1]
      · rwa [catalog_withOrders.2.1]

/-- **The continuous generator stands still at an overdue order**, until it is shipped: every batch
is refused, whatever is drawn, and nothing changes. What refuses it is the time of the shipment,
unless the batch does not get that far. -/
theorem stuck_of_run (hbaseline : Baseline db seeded) {before after : List Transaction}
    (hdrawn : Runs.Along (step render seeded) (fun db t ↦ t.Drawn render seeded db) db
      (before ++ after))
    (hrun : Runs.run (step render seeded) db before = some db') {since shipped : Timestamp}
    (hoverdue : Overdue db' since shipped) (hbetween : ∀ t ∈ after, t.Between since shipped) :
    Runs.run (step render seeded) db' after = some db' ∧
      ∀ t ∈ after, t.Refused render seeded db' := by
  obtain ⟨hsound, -⟩ := sound_of_transactions (sound_of_baseline hbaseline) hbaseline.state
    hdrawn.of_append hrun
  have hafter := hdrawn.of_append_run hrun
  clear hdrawn hrun hbaseline
  induction after with
  | nil => exact ⟨rfl, fun _ ht ↦ absurd ht List.not_mem_nil⟩
  | cons t after ih =>
    obtain ⟨hdrawn, hrest⟩ := hafter
    obtain ⟨hfirst, hlater⟩ := List.forall_mem_cons.1 hbetween
    have hrefused := refused_of_overdue hsound hoverdue hdrawn hfirst
    obtain ⟨hsame, hall⟩ := ih hlater (hrest db' hrefused.step_eq)
    rw [Runs.run, hrefused.step_eq, Option.bind_some]
    exact ⟨hsame, List.forall_mem_cons.2 ⟨hrefused, hall⟩⟩

/-- After two batches of one order each the first order is overdue, and the next two batches, with
keys that are new, are refused by it. -/
theorem stuck_of_run_small : ∃ db,
    Runs.run (step smallRendering smallState) smallDatabase [smallBatch 1, smallBatch 2] = some db ∧
      Runs.run (step smallRendering smallState) db [smallBatch 3, smallBatch 4] = some db ∧
        transact smallRendering smallState db (smallBatch 3) = .error .shipmentTimeOrder := by
  have hrun : (Runs.run (step smallRendering smallState) smallDatabase
      [smallBatch 1, smallBatch 2]).any (fun db ↦ decide
        (Overdue db 20000000 (10000000 + day) ∧ loadState smallRendering db = .ok smallState ∧
          GetsToAdvance smallRendering db smallState 3 30000000 [smallOrder 3] (smallChanges 7))) =
            true := by
    decide +kernel
  obtain ⟨db, hdb, hfacts⟩ := (Option.any_eq_true _ _).1 hrun
  obtain ⟨hoverdue, hstate, hgets⟩ := of_decide_eq_true hfacts
  have hbetween : ∀ t ∈ [smallBatch 3, smallBatch 4], t.Between 20000000 (10000000 + day) := by
    intro t ht
    rcases List.mem_pair.1 ht with rfl | rfl
    · exact ⟨by decide, by decide⟩
    · exact ⟨by decide, by decide⟩
  obtain ⟨hsame, hrefused⟩ :=
    stuck_of_run baseline_small (by decide +kernel) hdb hoverdue hbetween
  exact ⟨db, hdb, hsame, (hrefused _ List.mem_cons_self).timeOrder ⟨smallState, hstate, hgets⟩⟩

end LakehousePipeline.Generator
