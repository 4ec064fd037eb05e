import LakehousePipeline.Gold.FactJoins

/-!
# The facts of an order depend on the rows of that order

Two Silver states that show the same rows of an order (its header, items, payments and shipments,
its uses of vouchers and the vouchers used), read with dimensions that hold the same versions of the
members the order refers to, give the same fact rows of the order (`filter_buildFactSales_eq`). This
is what scoping rests on, both of the rows an incremental run reads and of the rows it leaves alone.

## Agreement

* `AgreeOnOrder` is about Silver. Vouchers do not name an order, so they are compared through the
  uses that do: two states may disagree on every voucher the order has not used.
* `SameVersions` is about one dimension and one member, and `AgreeOnMembers` about all four SCD2
  dimensions. The category of an item is not a column of the item: it is read from a version of the
  item's product variant. Which version that is depends on the time of the order, so agreement is
  asked for the category of every version of the variant.

Silver tables are compared by membership, so nothing depends on the order in which rows are stored:
windows sort, aggregates do not care, and unique keys leave no ties. Dimensions are compared as
lists, for that is what the gate leaves alone when it replaces the rows of other members.

## From rows to facts

Every join of `buildFactSales` picks its right side by a column of the item or of the order, so it
reads the agreeing rows only. There is one congruence lemma for each kind of join: by key
(`find?_eq_of_agree`), by order with the latest row first (`find?_latestByOrder_congr`), by time in
a dimension (`versionInForce_congr`, `firstVersion_congr`), and with an aggregate in front
(`find?_orderPromotionKeys_congr`). `joinItem_congr` puts them together for one item, and what is
left for the facts of an order is the allocation of its amounts over the items, a permutation of
which does not matter.
-/

namespace LakehousePipeline

/-! ### Agreement -/

/-- Two Silver states show the same rows of an order. -/
structure AgreeOnOrder (tables tables' : FactSources) (orderId : ℤ) : Prop where
  orders : ∀ row : Order, row.key = orderId → (row ∈ tables.orders ↔ row ∈ tables'.orders)
  orderItems : ∀ row : OrderItem, row.payload.orderId = orderId →
    (row ∈ tables.orderItems ↔ row ∈ tables'.orderItems)
  orderVouchers : ∀ row : OrderVoucher, row.payload.orderId = orderId →
    (row ∈ tables.orderVouchers ↔ row ∈ tables'.orderVouchers)
  vouchers : ∀ use ∈ tables.orderVouchers, use.payload.orderId = orderId →
    ∀ row : Voucher, use.payload.voucherId = some row.key →
      (row ∈ tables.vouchers ↔ row ∈ tables'.vouchers)
  payments : ∀ row : Payment, row.payload.orderId = orderId →
    (row ∈ tables.payments ↔ row ∈ tables'.payments)
  shipments : ∀ row : Shipment, row.payload.orderId = orderId →
    (row ∈ tables.shipments ↔ row ∈ tables'.shipments)

/-- Two dimensions hold the same versions of a nullable member. -/
def SameVersions {A κ V : Type} (dimension dimension' : List (Scd2Row A κ V)) (member : Option ℤ) :
    Prop :=
  ∀ k, member = some k →
    (dimension.filter fun v ↦ v.sourceKey = some k) = dimension'.filter fun v ↦ v.sourceKey = some k

/-- Two sets of dimensions hold the same versions of the members an order refers to. -/
structure AgreeOnMembers (tables : FactSources) (dimensions dimensions' : FactDimensions)
    (orderId : ℤ) : Prop where
  dimCustomer : ∀ order ∈ tables.orders, order.key = orderId →
    SameVersions dimensions.dimCustomer dimensions'.dimCustomer order.payload.customerId
  dimProduct : ∀ item ∈ tables.orderItems, item.payload.orderId = orderId →
    SameVersions dimensions.dimProduct dimensions'.dimProduct item.payload.productVariantId
  dimShop : ∀ item ∈ tables.orderItems, item.payload.orderId = orderId →
    SameVersions dimensions.dimShop dimensions'.dimShop item.payload.shopId
  dimCategory : ∀ item ∈ tables.orderItems, item.payload.orderId = orderId →
    ∀ p ∈ dimensions.dimProduct, p.sourceKey.isSome = true →
      p.sourceKey = item.payload.productVariantId →
        SameVersions dimensions.dimCategory dimensions'.dimCategory p.attributes.sourceCategoryId

/-! ### Versions -/

section Versions

variable {A κ V : Type} {dimension dimension' : List (Scd2Row A κ V)} {member : Option ℤ}

/-- The version joins read the versions of one member. -/
theorem versionInForce_eq_find? (dimension : List (Scd2Row A κ V)) (k : ℤ)
    (t : Option Timestamp) : versionInForce dimension (some k) t =
      (dimension.filter fun v ↦ v.sourceKey = some k).find? (versionMatch (some k) t) := by
  rw [versionInForce, knownVersions, List.find?_filter, List.find?_filter]
  congr 1
  funext v
  cases hk : v.sourceKey with
  | none => simp [versionMatch, equalColumns, hk]
  | some j =>
    rcases eq_or_ne j k with rfl | hne
    · simp
    · simp [versionMatch, equalColumns, hk, hne, hne.symm]

/-- The version join by time, read with dimensions that agree on the member. -/
theorem versionInForce_congr (h : SameVersions dimension dimension' member)
    (t : Option Timestamp) :
      versionInForce dimension member t = versionInForce dimension' member t := by
  cases member with
  | none =>
    have hnone : ∀ d : List (Scd2Row A κ V), versionInForce d none t = none := fun d ↦
      List.find?_eq_none.2 fun v _ ↦ by simp [versionMatch, equalColumns]
    rw [hnone, hnone]
  | some k => rw [versionInForce_eq_find?, versionInForce_eq_find?, h k rfl]

/-- The join with the first versions reads the versions of one member. -/
theorem firstVersion_eq_head? (dimension : List (Scd2Row A κ V)) (k : ℤ) :
    firstVersion dimension (some k) =
      ((dimension.filter fun v ↦ v.sourceKey = some k).insertionSort fun a b ↦
        (toLex (a.effectiveFrom, a.surrogateKey) : ℤ ×ₗ ℤ) ≤
          toLex (b.effectiveFrom, b.surrogateKey)).head? := by
  have hknown : ((knownVersions dimension).filter fun v ↦ v.sourceKey = some k) =
      dimension.filter fun v ↦ v.sourceKey = some k := by
    rw [knownVersions, List.filter_filter]
    refine List.filter_congr fun v _ ↦ ?_
    cases v.sourceKey <;> simp
  simp only [firstVersion, equalColumns_some]
  rw [firstScd2Version, Window.find?_firstPerPartition_eq_head?, hknown]

/-- The join with the first versions, read with dimensions that agree on the member. It stands in
where no version covers the time of the order. -/
theorem firstVersion_congr (h : SameVersions dimension dimension' member) :
    firstVersion dimension member = firstVersion dimension' member := by
  cases member with
  | none =>
    have hnone : ∀ d : List (Scd2Row A κ V), firstVersion d none = none := fun d ↦
      List.find?_eq_none.2 fun _ _ ↦ Bool.false_ne_true
    rw [hnone, hnone]
  | some k => rw [firstVersion_eq_head?, firstVersion_eq_head?, h k rfl]

/-- A first version is a row of the dimension, and one of the member asked for. -/
theorem mem_of_firstVersion {v : Scd2Row A κ V} (h : firstVersion dimension member = some v) :
    v ∈ dimension ∧ v.sourceKey.isSome = true ∧ v.sourceKey = member := by
  have hkey := List.find?_some h
  obtain ⟨k, hk, hv⟩ := equalColumns_eq_true_iff.1 hkey
  refine ⟨?_, by rw [hv]; rfl, by rw [hk, hv]⟩
  rw [hk, firstVersion_eq_head?] at h
  have hmem := (List.mem_insertionSort _).1 (List.mem_of_mem_head? (Option.mem_def.2 h))
  exact (List.mem_filter.1 hmem).1

/-- A version in force is a row of the dimension, and one of the member asked for. -/
theorem mem_of_versionInForce {t : Option Timestamp} {v : Scd2Row A κ V}
    (h : versionInForce dimension member t = some v) :
    v ∈ dimension ∧ v.sourceKey.isSome = true ∧ v.sourceKey = member := by
  obtain ⟨hmem, hsome⟩ := mem_knownVersions.1 (List.mem_of_find?_eq_some h)
  obtain ⟨k, s, hk, -, hv, -⟩ := versionMatch_eq_true_iff.1 (List.find?_some h)
  exact ⟨hmem, hsome, hv.trans hk.symm⟩

end Versions

/-! ### The rows of an order -/

section Tables

variable {fns : SparkFunctions} {tables tables' : FactSources}
  {dimensions dimensions' : FactDimensions} {orderId : ℤ}

/-- Tables with unique keys that show the same rows of an order hold them in some order each. -/
theorem filter_perm_of_agree {P : Type} {rows rows' : List (BusinessRow ℤ P)}
    (hrows : (rows.map fun row ↦ row.key).Nodup) (hrows' : (rows'.map fun row ↦ row.key).Nodup)
    {p : BusinessRow ℤ P → Bool} (h : ∀ row, p row = true → (row ∈ rows ↔ row ∈ rows')) :
    (rows.filter p).Perm (rows'.filter p) := by
  refine (List.perm_ext_iff_of_nodup (hrows.of_map.filter p) (hrows'.of_map.filter p)).2
    fun row ↦ ?_
  rw [List.mem_filter, List.mem_filter]
  exact and_congr_left fun hp ↦ h row hp

/-- A lookup by key reads the one row with the key. -/
theorem find?_eq_of_agree {P : Type} {rows rows' : List (BusinessRow ℤ P)}
    (hrows : (rows.map fun row ↦ row.key).Nodup) (hrows' : (rows'.map fun row ↦ row.key).Nodup)
    {k : ℤ} (h : ∀ row : BusinessRow ℤ P, row.key = k → (row ∈ rows ↔ row ∈ rows')) :
    rows.find? (fun row ↦ k = row.key) = rows'.find? fun row ↦ k = row.key := by
  have hflip : (fun row : BusinessRow ℤ P ↦ decide (k = row.key)) =
      fun row ↦ decide (row.key = k) :=
    funext fun row ↦ decide_eq_decide.2 eq_comm
  rw [hflip]
  refine Option.ext fun row ↦ ?_
  have hlookup := MergeInto.lookup_eq_some_iff hrows (k := k) (t := row)
  have hlookup' := MergeInto.lookup_eq_some_iff hrows' (k := k) (t := row)
  rw [MergeInto.lookup] at hlookup hlookup'
  rw [hlookup, hlookup']
  exact and_congr_left (h row)

/-- The latest row of an order depends on the rows of the order. -/
theorem find?_latestByOrder_congr {P : Type} {orderOf : P → ℤ} (updatedAt : P → Option Timestamp)
    {rows rows' : List (BusinessRow ℤ P)} (hrows : (rows.map fun row ↦ row.key).Nodup)
    (hrows' : (rows'.map fun row ↦ row.key).Nodup)
    (h : ∀ row : BusinessRow ℤ P, orderOf row.payload = orderId → (row ∈ rows ↔ row ∈ rows')) :
    (latestByOrder orderOf updatedAt rows).find? (fun row ↦ orderId = orderOf row.payload) =
      (latestByOrder orderOf updatedAt rows').find? fun row ↦ orderId = orderOf row.payload := by
  have hflip : (fun row : BusinessRow ℤ P ↦ decide (orderId = orderOf row.payload)) =
      fun row ↦ decide (orderOf row.payload = orderId) :=
    funext fun row ↦ decide_eq_decide.2 eq_comm
  let r : BusinessRow ℤ P → BusinessRow ℤ P → Prop := fun a b ↦
    (toLex (descNullsLast (updatedAt b.payload), b.key) : WithBot ℤ ×ₗ ℤ) ≤
      toLex (descNullsLast (updatedAt a.payload), a.key)
  have : Std.Total r := ⟨fun a b ↦ le_total _ _⟩
  have : IsTrans _ r := ⟨fun _ _ _ hab hbc ↦ hbc.trans hab⟩
  have hperm := filter_perm_of_agree hrows hrows' (p := fun row ↦ orderOf row.payload = orderId)
    fun row hrow ↦ h row (of_decide_eq_true hrow)
  have hsort : (rows.filter fun row ↦ orderOf row.payload = orderId).insertionSort r =
      (rows'.filter fun row ↦ orderOf row.payload = orderId).insertionSort r := by
    -- ties of the time are broken by the key, and keys are unique
    refine Window.insertionSort_eq_of_perm r hperm fun a ha b hb hab hba ↦ ?_
    have hpair := toLex.injective (le_antisymm hba hab)
    exact List.inj_on_of_nodup_map hrows (List.mem_of_mem_filter ha) (List.mem_of_mem_filter hb)
      (Prod.mk.inj hpair).2
  rw [hflip, latestByOrder, Window.find?_firstPerPartition_eq_head?, latestByOrder,
    Window.find?_firstPerPartition_eq_head?]
  exact congrArg List.head? hsort

/-! ### Promotions -/

/-- `concat_ws` over a sorted set forgets the order of its inputs. -/
theorem commaSeparatedSet_eq_of_perm {xs ys : List (Option Text)} (h : xs.Perm ys) :
    commaSeparatedSet xs = commaSeparatedSet ys := by
  rw [commaSeparatedSet, commaSeparatedSet, sortedSetOf_eq_of_perm h]

/-- The aggregate over the vouchers of an order. -/
theorem orderPromotion_eq_of_perm {uses uses' : List (OrderVoucher × Option Voucher)}
    (h : uses.Perm uses') : orderPromotion fns orderId uses = orderPromotion fns orderId uses' := by
  have hcolumn : ∀ {α : Type} (get : VoucherColumns → Option α),
      (uses.map fun use ↦ use.2.bind fun v ↦ get v.payload).Perm
        (uses'.map fun use ↦ use.2.bind fun v ↦ get v.payload) := fun get ↦ h.map _
  have hactive := maxOf_eq_of_perm
    (hcolumn fun v ↦ v.isActive.map fun b ↦ if b then (1 : ℤ) else 0)
  simp only [orderPromotion, commaSeparatedSet_eq_of_perm (hcolumn _),
    minOf_eq_of_perm (hcolumn _), maxOf_eq_of_perm (hcolumn _), hactive,
    (h.filterMap fun use ↦ use.1.payload.voucherId).length_eq]

/-- An order voucher with the voucher it names. -/
def useOf (tables : FactSources) (use : OrderVoucher) : OrderVoucher × Option Voucher :=
  (use, tables.vouchers.find? fun v ↦ equalColumns use.payload.voucherId (some v.key))

/-- The promotion of an order is the aggregate over its voucher uses. -/
theorem find?_orderPromotionKeys (htables : tables.UniqueKeys) :
    (orderPromotionKeys fns tables.orderVouchers tables.vouchers).find?
        (fun p ↦ orderId = p.orderId) =
      if ∃ use ∈ tables.orderVouchers, use.payload.orderId = orderId then
        some (orderPromotion fns orderId
          ((tables.orderVouchers.filter fun use ↦ use.payload.orderId = orderId).map
            (useOf tables)))
      else none := by
  have honce : ∀ use ∈ tables.orderVouchers, (tables.vouchers.filter fun v ↦
      equalColumns use.payload.voucherId (some v.key)).length ≤ 1 := by
    intro use _
    cases hid : use.payload.voucherId with
    | none => simp [equalColumns]
    | some k =>
      have hle := Relational.length_filter_eq_le_one htables.vouchers k
      have hcond : (fun v : Voucher ↦ equalColumns (some k) (some v.key)) =
          fun v ↦ decide (k = v.key) := rfl
      rwa [hcond]
  have hmap : ∀ keys : List ℤ, (keys.map fun o ↦ orderPromotion fns o
      ((tables.orderVouchers.map (useOf tables)).filter fun use ↦
        use.1.payload.orderId = o)).find? (fun p ↦ orderId = p.orderId) =
      if orderId ∈ keys then some (orderPromotion fns orderId
        ((tables.orderVouchers.map (useOf tables)).filter fun use ↦
          use.1.payload.orderId = orderId)) else none := by
    intro keys
    -- the keys are distinct, so the first one that matches is the order itself
    induction keys with
    | nil => rfl
    | cons o keys ih =>
      rw [List.map_cons, List.find?_cons]
      rcases eq_or_ne orderId o with rfl | hne
      · simp [orderPromotion]
      · have hcond : decide (orderId = (orderPromotion fns o
            ((tables.orderVouchers.map (useOf tables)).filter fun use ↦
              use.1.payload.orderId = o)).orderId) = false := decide_eq_false hne
        rw [hcond, ih]
        simp [hne]
  rw [orderPromotionKeys, Relational.leftJoin_eq_map honce]
  refine (hmap _).trans ?_
  rw [List.filter_map]
  refine if_congr ?_ rfl rfl
  rw [List.mem_dedup, List.map_map, List.mem_map]
  rfl

/-- The promotion of an order depends on its uses of vouchers and on the vouchers they name. -/
theorem find?_orderPromotionKeys_congr (fns : SparkFunctions)
    (htables : tables.UniqueKeys) (htables' : tables'.UniqueKeys)
    (h : AgreeOnOrder tables tables' orderId) :
    (orderPromotionKeys fns tables.orderVouchers tables.vouchers).find?
        (fun p ↦ orderId = p.orderId) =
      (orderPromotionKeys fns tables'.orderVouchers tables'.vouchers).find?
        fun p ↦ orderId = p.orderId := by
  have hperm := filter_perm_of_agree htables.orderVouchers htables'.orderVouchers
    (p := fun use ↦ use.payload.orderId = orderId)
    fun use huse ↦ h.orderVouchers use (of_decide_eq_true huse)
  have huses : ∀ use ∈ tables.orderVouchers.filter (fun use ↦ use.payload.orderId = orderId),
      useOf tables use = useOf tables' use := by
    intro use huse
    obtain ⟨hin, hid⟩ := List.mem_filter.1 huse
    rw [useOf, useOf]
    cases hvoucher : use.payload.voucherId with
    | none =>
      have hnone : ∀ vouchers : List Voucher,
          vouchers.find? (fun v ↦ equalColumns none (some v.key)) = none := fun vouchers ↦
        List.find?_eq_none.2 fun _ _ ↦ Bool.false_ne_true
      rw [hnone, hnone]
    | some k =>
      have hfind := find?_eq_of_agree htables.vouchers htables'.vouchers (k := k)
        fun row hrow ↦ h.vouchers use hin (of_decide_eq_true hid) row (by rw [hvoucher, hrow])
      exact congrArg (Prod.mk use) hfind
  have hexists : (∃ use ∈ tables.orderVouchers, use.payload.orderId = orderId) ↔
      ∃ use ∈ tables'.orderVouchers, use.payload.orderId = orderId :=
    exists_congr fun use ↦ and_congr_left fun hid ↦ h.orderVouchers use hid
  rw [find?_orderPromotionKeys htables, find?_orderPromotionKeys htables',
    List.map_congr_left huses, orderPromotion_eq_of_perm (hperm.map _)]
  exact if_congr hexists rfl rfl

/-! ### Facts -/

/-- **A joined item depends on the rows of its order.** -/
theorem joinItem_congr (htables : tables.UniqueKeys) (htables' : tables'.UniqueKeys)
    (h : AgreeOnOrder tables tables' orderId)
    (hdims : AgreeOnMembers tables dimensions dimensions' orderId) {item : OrderItem}
    (hitem : item ∈ tables.orderItems) (hid : item.payload.orderId = orderId) :
    joinItem fns tables dimensions item = joinItem fns tables' dimensions' item := by
  have horder : tables.orderOf item = tables'.orderOf item := by
    rw [FactSources.orderOf, FactSources.orderOf, hid]
    exact find?_eq_of_agree htables.orders htables'.orders h.orders
  have hcustomer : SameVersions dimensions.dimCustomer dimensions'.dimCustomer
      ((tables.orderOf item).bind fun o ↦ o.payload.customerId) := by
    cases hfind : tables.orderOf item with
    | none =>
      intro k hk
      cases hk
    | some o =>
      have hsome := List.find?_some hfind
      have hkey : item.payload.orderId = o.key := of_decide_eq_true hsome
      exact hdims.dimCustomer o (List.mem_of_find?_eq_some hfind) (hkey ▸ hid)
  have hproduct := hdims.dimProduct item hitem hid
  have hshop := hdims.dimShop item hitem hid
  have hcategory : SameVersions dimensions.dimCategory dimensions'.dimCategory
      (joinItem fns tables dimensions item).sourceCategoryId := by
    intro c hc
    -- the category comes from a version of the item's variant
    rcases Option.or_eq_some_iff.1 hc with hversion | ⟨-, hfirst⟩
    · obtain ⟨p, hp, hpc⟩ := Option.bind_eq_some_iff.1 hversion
      obtain ⟨hmem, hsome, hkey⟩ := mem_of_versionInForce hp
      exact hdims.dimCategory item hitem hid p hmem hsome hkey c hpc
    · obtain ⟨p, hp, hpc⟩ := Option.bind_eq_some_iff.1 hfirst
      obtain ⟨hmem, hsome, hkey⟩ := mem_of_firstVersion hp
      exact hdims.dimCategory item hitem hid p hmem hsome hkey c hpc
  have hpayment := find?_latestByOrder_congr PaymentColumns.updatedAt
    htables.payments htables'.payments h.payments
  have hshipment := find?_latestByOrder_congr ShipmentColumns.updatedAt
    htables.shipments htables'.shipments h.shipments
  have hpromotion := find?_orderPromotionKeys_congr fns htables htables' h
  simp only [joinItem, JoinedItem.sourceCategoryId] at hcategory ⊢
  rw [hid, hpayment, hshipment, hpromotion, ← horder, versionInForce_congr hcustomer,
    firstVersion_congr hcustomer, versionInForce_congr hcategory, firstVersion_congr hcategory,
    versionInForce_congr hproduct, firstVersion_congr hproduct, versionInForce_congr hshop,
    firstVersion_congr hshop]

/-- **The facts of an order depend on the rows of the order.** -/
theorem filter_buildFactSales_eq (htables : tables.UniqueKeys) (htables' : tables'.UniqueKeys)
    (hdisjoint : dimensions.Disjoint) (hdisjoint' : dimensions'.Disjoint)
    (h : AgreeOnOrder tables tables' orderId)
    (hdims : AgreeOnMembers tables dimensions dimensions' orderId) :
    ((buildFactSales fns tables dimensions).filter fun f ↦ f.sourceOrderId = orderId) =
      (buildFactSales fns tables' dimensions').filter fun f ↦ f.sourceOrderId = orderId := by
  have hfilter : ∀ (t : FactSources) (d : FactDimensions), t.UniqueKeys → d.Disjoint →
      ((buildFactSales fns t d).filter fun f ↦ f.sourceOrderId = orderId) =
        Window.overRows (factRow fns)
          (((t.orderItems.filter fun item ↦ item.payload.orderId = orderId).map
            (joinItem fns t d)).insertionSort fun a b ↦ b.item.key ≤ a.item.key) := by
    intro t d ht hd
    rw [buildFactSales, joinedItems_eq_map fns ht hd,
      Window.filter_overPartition JoinedItem.orderId _ (f := factRow fns)
        (g := fun f ↦ f.sourceOrderId) fun _ _ _ ↦ rfl, List.filter_map]
    rfl
  have hitems := filter_perm_of_agree htables.orderItems htables'.orderItems
    (p := fun item ↦ item.payload.orderId = orderId)
    fun item hitem ↦ h.orderItems item (of_decide_eq_true hitem)
  have hjoin : ∀ item ∈ tables.orderItems.filter (fun item ↦ item.payload.orderId = orderId),
      joinItem fns tables dimensions item = joinItem fns tables' dimensions' item := by
    intro item hitem
    obtain ⟨hin, hid⟩ := List.mem_filter.1 hitem
    exact joinItem_congr htables htables' h hdims hin (of_decide_eq_true hid)
  let r : JoinedItem → JoinedItem → Prop := fun a b ↦ b.item.key ≤ a.item.key
  have : Std.Total r := ⟨fun a b ↦ le_total _ _⟩
  have : IsTrans _ r := ⟨fun _ _ _ hab hbc ↦ hbc.trans hab⟩
  rw [hfilter tables dimensions htables hdisjoint, hfilter tables' dimensions' htables' hdisjoint',
    List.map_congr_left hjoin]
  refine congrArg (Window.overRows (factRow fns))
    (Window.insertionSort_eq_of_perm r (hitems.map _) fun a ha b hb hab hba ↦ ?_)
  obtain ⟨x, hx, rfl⟩ := List.mem_map.1 ha
  obtain ⟨y, hy, rfl⟩ := List.mem_map.1 hb
  rw [List.inj_on_of_nodup_map htables.orderItems (List.mem_of_mem_filter hx)
    (List.mem_of_mem_filter hy) (le_antisymm hba hab)]

end Tables

end LakehousePipeline
