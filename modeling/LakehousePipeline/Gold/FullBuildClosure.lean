import LakehousePipeline.Gold.Builder

/-!
# A full build is closed

A fact row has its date, time, location, promotion, payment and shipping keys computed from the row
itself, and the dimensions have theirs computed from the Silver rows, by other code. In a full build
over one Silver state the two agree: every key of a fact is the key of a member, whatever the order
has or lacks, as long as the order itself is there. An order that is missing has no address
snapshot, and the key of an address without fields need not be a member.

The keys of a dimension are distinct if the hashed tuples that occur are kept apart. A null column
is hashed as an empty text, so a pair with an empty text and one with a null would share their key.
-/

namespace LakehousePipeline

/-! ### Hashed tuples -/

/-- The key of a tuple of columns. -/
def tupleKey (fns : SparkFunctions) (columns : List (Option Text)) : ℤ :=
  positiveHashKey fns (naturalHash fns columns)

/-- Among the tuples, those that differ in more than null and empty columns have different keys, and
none has the key of the unknown member. -/
structure TuplesApart (fns : SparkFunctions) (tuples : List (List (Option Text))) : Prop where
  /-- No two tuples collide. -/
  collision : ∀ a ∈ tuples, ∀ b ∈ tuples, tupleKey fns a = tupleKey fns b →
    (a.map fun c ↦ c.getD []) = b.map fun c ↦ c.getD []
  /-- The key 0 is left to the unknown member. -/
  unknown : ∀ a ∈ tuples, tupleKey fns a ≠ 0

/-- Null or not empty. -/
def NullOrText (value : Option Text) : Prop :=
  value ≠ some []

/-- A column that is null or not empty is determined by the text that is hashed. -/
theorem eq_of_getD_eq {a b : Option Text} (ha : NullOrText a) (hb : NullOrText b)
    (h : a.getD [] = b.getD []) : a = b := by
  rcases a with - | a
  · rcases b with - | b
    · rfl
    · exact absurd (congrArg some h.symm) hb
  · rcases b with - | b
    · exact absurd (congrArg some h) ha
    · exact congrArg some h

/-- **Distinct pairs of columns have distinct keys.** -/
theorem nodup_pair_keys {fns : SparkFunctions} {pairs : List (Option Text × Option Text)}
    (hpairs : pairs.Nodup) (htexts : ∀ p ∈ pairs, NullOrText p.1 ∧ NullOrText p.2)
    (hapart : TuplesApart fns (pairs.map fun p ↦ [p.1, p.2])) :
    (0 :: pairs.map fun p ↦ tupleKey fns [p.1, p.2]).Nodup := by
  have hmem : ∀ p ∈ pairs, [p.1, p.2] ∈ pairs.map fun p ↦ [p.1, p.2] :=
    fun p hp ↦ List.mem_map_of_mem hp
  refine List.nodup_cons.2 ⟨fun hzero ↦ ?_, ?_⟩
  · obtain ⟨p, hp, hkey⟩ := List.mem_map.1 hzero
    exact hapart.unknown _ (hmem p hp) hkey
  · refine List.Nodup.map_on (fun p hp q hq hkey ↦ ?_) hpairs
    have htuple := hapart.collision _ (hmem p hp) _ (hmem q hq) hkey
    obtain ⟨hfst, htail⟩ := List.cons.inj htuple
    obtain ⟨hsnd, -⟩ := List.cons.inj htail
    exact Prod.ext (eq_of_getD_eq (htexts p hp).1 (htexts q hq).1 hfst)
      (eq_of_getD_eq (htexts p hp).2 (htexts q hq).2 hsnd)

/-- Rows without duplicates under the unknown member. -/
theorem nodup_dropDuplicates_keys {R : Type} {key : R → ℤ} {rows : List R}
    (hunknown : ∀ row ∈ rows, key row ≠ 0) :
    (0 :: (Relational.dropDuplicatesOn key rows).map key).Nodup := by
  refine List.nodup_cons.2 ⟨fun hzero ↦ ?_, Relational.nodup_map_dropDuplicatesOn key rows⟩
  obtain ⟨row, hrow, hkey⟩ := List.mem_map.1 hzero
  exact hunknown row (Relational.mem_of_mem_dropDuplicatesOn hrow) hkey

/-! ### The dimensions -/

section Dimensions

variable (fns : SparkFunctions)

/-- The tuples hashed for `dim_location`. -/
def locationTuples (addresses : List Address) (orders : List Order) : List (List (Option Text)) :=
  addresses.map (fun a ↦ a.payload.fields.columns) ++
    orders.map (fun o ↦ (AddressFields.ofJson fns o.payload.shippingAddressSnapshot).columns) ++
    orders.map fun o ↦ (AddressFields.ofJson fns o.payload.billingAddressSnapshot).columns

/-- The tuples hashed for `dim_promotion`. -/
def promotionTuples (orderVouchers : List OrderVoucher) (vouchers : List Voucher) :
    List (List (Option Text)) :=
  (orderPromotionKeys fns orderVouchers vouchers).map fun p ↦
    [some p.voucherCodes, some p.discountTypes, some p.promotionScope]

/-- The tuples hashed for `dim_payment`. -/
def paymentTuples (payments : List Payment) : List (List (Option Text)) :=
  payments.map fun p ↦ [p.payload.paymentMethod, p.payload.paymentStatus]

/-- The tuples hashed for `dim_shipping`. -/
def shippingTuples (shipments : List Shipment) : List (List (Option Text)) :=
  shipments.map fun s ↦ [s.payload.carrier, s.payload.shipmentStatus]

/-- Distinct days have distinct dates, and none is 0. -/
structure DatesApart (days : List ℤ) : Prop where
  /-- `yyyyMMdd` names the day. -/
  collision : ∀ a ∈ days, ∀ b ∈ days, fns.dateFormat a = fns.dateFormat b → a = b
  /-- A year, a month and a day. -/
  unknown : ∀ a ∈ days, fns.dateFormat a ≠ 0

variable {fns}

/-! #### Distinct keys -/

theorem nodup_dateKeys {orders : List Order}
    (hdates : DatesApart fns (orders.map fun o ↦ toDate o.createdAt)) :
    ((buildDimDate fns orders).map DateRow.dateKey).Nodup := by
  rw [buildDimDate, List.map_cons, List.map_map]
  refine List.nodup_cons.2 ⟨fun hzero ↦ ?_, List.Nodup.map_on (fun a ha b hb hkey ↦ ?_)
    (List.nodup_dedup _)⟩
  · obtain ⟨day, hday, hkey⟩ := List.mem_map.1 hzero
    exact hdates.unknown day (List.mem_dedup.1 hday) hkey
  · exact hdates.collision a (List.mem_dedup.1 ha) b (List.mem_dedup.1 hb) hkey

/-- The keys of times of day begin at 1. -/
theorem secondOfDayKey_ne_zero (t : ℤ) : secondOfDayKey t ≠ 0 := by
  have hhour : 0 ≤ t / 3600000000 % 24 := Int.emod_nonneg _ (by decide)
  have hminute : 0 ≤ t / 60000000 % 60 := Int.emod_nonneg _ (by decide)
  have hsecond : 0 ≤ t / 1000000 % 60 := Int.emod_nonneg _ (by decide)
  have hpositive :
      0 < t / 3600000000 % 24 * 3600 + t / 60000000 % 60 * 60 + t / 1000000 % 60 + 1 := by
    omega
  exact hpositive.ne'

theorem nodup_timeKeys (orders : List Order) :
    ((buildDimTime orders).map TimeRow.timeKey).Nodup := by
  refine nodup_dropDuplicates_keys fun row hrow ↦ ?_
  obtain ⟨o, -, rfl⟩ := List.mem_map.1 hrow
  exact secondOfDayKey_ne_zero o.createdAt

theorem nodup_locationKeys {addresses : List Address} {orders : List Order}
    (hapart : TuplesApart fns (locationTuples fns addresses orders)) :
    ((buildDimLocation fns addresses orders).map LocationRow.locationKey).Nodup := by
  refine nodup_dropDuplicates_keys fun row hrow ↦ ?_
  rw [List.append_assoc, List.mem_append, List.mem_append] at hrow
  rcases hrow with hrow | hrow | hrow
  · obtain ⟨a, ha, rfl⟩ := List.mem_map.1 hrow
    exact hapart.unknown _
      (List.mem_append_left _ (List.mem_append_left _ (List.mem_map_of_mem ha)))
  · obtain ⟨o, ho, rfl⟩ := List.mem_map.1 hrow
    exact hapart.unknown _
      (List.mem_append_left _ (List.mem_append_right _ (List.mem_map_of_mem ho)))
  · obtain ⟨o, ho, rfl⟩ := List.mem_map.1 hrow
    exact hapart.unknown _ (List.mem_append_right _ (List.mem_map_of_mem ho))

/-- The key of a promotion is the key of its codes, types and scopes. -/
theorem promotionKey_eq_tupleKey {orderVouchers : List OrderVoucher} {vouchers : List Voucher}
    {p : OrderPromotion} (hp : p ∈ orderPromotionKeys fns orderVouchers vouchers) :
    p.promotionKey =
      tupleKey fns [some p.voucherCodes, some p.discountTypes, some p.promotionScope] := by
  obtain ⟨orderId, -, rfl⟩ := List.mem_map.1 hp
  rfl

theorem nodup_promotionKeys {orderVouchers : List OrderVoucher} {vouchers : List Voucher}
    (hapart : TuplesApart fns (promotionTuples fns orderVouchers vouchers)) :
    ((buildDimPromotion fns orderVouchers vouchers).map PromotionRow.promotionKey).Nodup := by
  refine nodup_dropDuplicates_keys fun row hrow ↦ ?_
  obtain ⟨p, hp, rfl⟩ := List.mem_map.1 hrow
  show p.promotionKey ≠ 0
  rw [promotionKey_eq_tupleKey hp]
  exact hapart.unknown _ (List.mem_map_of_mem hp)

/-- The tuples of the distinct pairs are among those of the rows. -/
theorem TuplesApart.of_subset {tuples tuples' : List (List (Option Text))}
    (h : TuplesApart fns tuples) (hsub : tuples' ⊆ tuples) : TuplesApart fns tuples' :=
  ⟨fun a ha b hb ↦ h.collision a (hsub ha) b (hsub hb), fun a ha ↦ h.unknown a (hsub ha)⟩

/-- The keys of the distinct pairs of two columns, under the unknown member. -/
theorem nodup_distinctPairs_keys {R : Type} {rows : List R} {pair : R → Option Text × Option Text}
    (htexts : ∀ row ∈ rows, NullOrText (pair row).1 ∧ NullOrText (pair row).2)
    (hapart : TuplesApart fns (rows.map fun row ↦ [(pair row).1, (pair row).2])) :
    (0 :: (rows.map pair).dedup.map fun p ↦ tupleKey fns [p.1, p.2]).Nodup := by
  refine nodup_pair_keys (List.nodup_dedup _) (fun p hp ↦ ?_) (hapart.of_subset fun a ha ↦ ?_)
  · obtain ⟨row, hrow, rfl⟩ := List.mem_map.1 (List.mem_dedup.1 hp)
    exact htexts row hrow
  · obtain ⟨p, hp, rfl⟩ := List.mem_map.1 ha
    obtain ⟨row, hrow, rfl⟩ := List.mem_map.1 (List.mem_dedup.1 hp)
    exact List.mem_map_of_mem hrow

theorem nodup_paymentKeys {payments : List Payment}
    (htexts : ∀ p ∈ payments,
      NullOrText p.payload.paymentMethod ∧ NullOrText p.payload.paymentStatus)
    (hapart : TuplesApart fns (paymentTuples payments)) :
    ((buildDimPayment fns payments).map PaymentRow.paymentKey).Nodup := by
  rw [buildDimPayment, List.map_cons, List.map_map]
  exact nodup_distinctPairs_keys htexts hapart

theorem nodup_shippingKeys {shipments : List Shipment}
    (htexts : ∀ s ∈ shipments, NullOrText s.payload.carrier ∧ NullOrText s.payload.shipmentStatus)
    (hapart : TuplesApart fns (shippingTuples shipments)) :
    ((buildDimShipping fns shipments).map ShippingRow.shippingKey).Nodup := by
  rw [buildDimShipping, List.map_cons, List.map_map]
  exact nodup_distinctPairs_keys htexts hapart

/-! #### Members -/

theorem dateKey_mem {orders : List Order} {o : Order} (ho : o ∈ orders) :
    fns.dateFormat (toDate o.createdAt) ∈ (buildDimDate fns orders).map DateRow.dateKey := by
  rw [buildDimDate, List.map_cons, List.map_map]
  exact List.mem_cons_of_mem _ (List.mem_map_of_mem (f := fns.dateFormat)
    (List.mem_dedup.2 (List.mem_map_of_mem ho)))

/-- A key of the rows is the key of a row that is left, under any other member. -/
theorem mem_dropDuplicates_keys {R : Type} (key : R → ℤ) {rows : List R} {row : R}
    (hrow : row ∈ rows) (first : R) :
    key row ∈ (first :: Relational.dropDuplicatesOn key rows).map key := by
  obtain ⟨kept, hkept, hkey⟩ := Relational.exists_mem_dropDuplicatesOn key hrow
  exact List.mem_map.2 ⟨kept, List.mem_cons_of_mem _ hkept, hkey⟩

theorem timeKey_mem {orders : List Order} {o : Order} (ho : o ∈ orders) :
    secondOfDayKey o.createdAt ∈ (buildDimTime orders).map TimeRow.timeKey :=
  mem_dropDuplicates_keys TimeRow.timeKey (List.mem_map_of_mem ho) _

theorem shippingLocationKey_mem {addresses : List Address} {orders : List Order} {o : Order}
    (ho : o ∈ orders) : locationKey fns o.payload.shippingAddressSnapshot ∈
      (buildDimLocation fns addresses orders).map LocationRow.locationKey :=
  mem_dropDuplicates_keys LocationRow.locationKey
    (List.mem_append_left _ (List.mem_append_right _ (List.mem_map_of_mem ho))) _

theorem billingLocationKey_mem {addresses : List Address} {orders : List Order} {o : Order}
    (ho : o ∈ orders) : locationKey fns o.payload.billingAddressSnapshot ∈
      (buildDimLocation fns addresses orders).map LocationRow.locationKey :=
  mem_dropDuplicates_keys LocationRow.locationKey
    (List.mem_append_right _ (List.mem_map_of_mem ho)) _

theorem promotionKey_mem {orderVouchers : List OrderVoucher} {vouchers : List Voucher}
    {p : OrderPromotion} (hp : p ∈ orderPromotionKeys fns orderVouchers vouchers) :
    p.promotionKey ∈
      (buildDimPromotion fns orderVouchers vouchers).map PromotionRow.promotionKey :=
  mem_dropDuplicates_keys PromotionRow.promotionKey (List.mem_map_of_mem hp) _

/-- The key of a pair of columns is the key of the unknown member or of the pair. -/
theorem pairKey_mem {R : Type} {rows : List R} {row : R} (hrow : row ∈ rows)
    (pair : R → Option Text × Option Text) : pairKey fns (pair row).1 (pair row).2 ∈
      0 :: (rows.map pair).dedup.map fun p ↦ tupleKey fns [p.1, p.2] := by
  rw [pairKey]
  split
  · exact List.mem_cons_self
  · exact List.mem_cons_of_mem _ (List.mem_map.2
      ⟨pair row, List.mem_dedup.2 (List.mem_map_of_mem hrow), rfl⟩)

theorem paymentPairKey_mem {payments : List Payment} {p : Payment} (hp : p ∈ payments) :
    pairKey fns p.payload.paymentMethod p.payload.paymentStatus ∈
      (buildDimPayment fns payments).map PaymentRow.paymentKey := by
  rw [buildDimPayment, List.map_cons, List.map_map]
  exact pairKey_mem hp fun p ↦ (p.payload.paymentMethod, p.payload.paymentStatus)

theorem shippingPairKey_mem {shipments : List Shipment} {s : Shipment} (hs : s ∈ shipments) :
    pairKey fns s.payload.carrier s.payload.shipmentStatus ∈
      (buildDimShipping fns shipments).map ShippingRow.shippingKey := by
  rw [buildDimShipping, List.map_cons, List.map_map]
  exact pairKey_mem hs fun s ↦ (s.payload.carrier, s.payload.shipmentStatus)

end Dimensions

/-! ### The facts -/

section Facts

variable (fns : SparkFunctions) (tables : FactSources)

/-- The order of a joined item is there. -/
def JoinedItem.HasOrder (j : JoinedItem) : Prop :=
  ∃ o ∈ tables.orders, j.order = some o

/-- The payment of a joined item, if any, is one of the table. -/
def JoinedItem.HasPayment (j : JoinedItem) : Prop :=
  ∀ p, j.payment = some p → p ∈ tables.payments

/-- The shipment of a joined item, if any, is one of the table. -/
def JoinedItem.HasShipment (j : JoinedItem) : Prop :=
  ∀ s, j.shipment = some s → s ∈ tables.shipments

/-- What the joins find for an item: its order, and rows of the tables. -/
structure JoinedItem.IsFound (j : JoinedItem) : Prop where
  order : j.HasOrder tables
  payment : j.HasPayment tables
  shipment : j.HasShipment tables
  /-- The promotion, if any, is the one of an order. -/
  promotion : ∀ p, j.promotion = some p →
    p ∈ orderPromotionKeys fns tables.orderVouchers tables.vouchers

variable {fns tables}

theorem mem_of_mem_latestByOrder {P : Type} {orderId : P → ℤ} {updatedAt : P → Option Timestamp}
    {rows : List (BusinessRow ℤ P)} {row : BusinessRow ℤ P}
    (h : row ∈ latestByOrder orderId updatedAt rows) : row ∈ rows :=
  Window.mem_of_mem_firstPerPartition _ _ h

open Relational in
/-- **The chain of joins** finds the order of every item, if it is there. -/
theorem isFound_of_mem_joinedItems (dimensions : FactDimensions)
    (hvisible : ∀ item ∈ tables.orderItems, ∃ o ∈ tables.orders, item.payload.orderId = o.key) :
    ∀ j ∈ joinedItems fns tables dimensions, j.IsFound fns tables := by
  have hitem : ∀ j ∈ tables.orderItems.map JoinedItem.ofItem,
      ∃ o ∈ tables.orders, decide (j.orderId = o.key) = true := by
    intro j hj
    obtain ⟨item, hitem, rfl⟩ := List.mem_map.1 hj
    obtain ⟨o, ho, hkey⟩ := hvisible item hitem
    exact ⟨o, ho, decide_eq_true hkey⟩
  unfold joinedItems
  -- from the last join to the first: promotion, shipment, payment, eight versions, order
  refine forall_mem_leftJoinWith
    (P := fun j ↦ (j.HasOrder tables ∧ j.HasPayment tables) ∧ j.HasShipment tables) ?_
    (fun j h p hp _ ↦ ⟨h.1.1, h.1.2, h.2, fun _ heq ↦ Option.some.inj heq ▸ hp⟩)
    fun j h _ ↦ ⟨h.1.1, h.1.2, h.2, fun _ heq ↦ nomatch heq⟩
  refine forall_mem_leftJoinWith (P := fun j ↦ j.HasOrder tables ∧ j.HasPayment tables) ?_
    (fun j h s hs _ ↦ ⟨h, fun _ heq ↦ Option.some.inj heq ▸ mem_of_mem_latestByOrder hs⟩)
    fun j h _ ↦ ⟨h, fun _ heq ↦ nomatch heq⟩
  refine forall_mem_leftJoinWith (P := fun j ↦ j.HasOrder tables) ?_
    (fun j h p hp _ ↦ ⟨h, fun _ heq ↦ Option.some.inj heq ▸ mem_of_mem_latestByOrder hp⟩)
    fun j h _ ↦ ⟨h, fun _ heq ↦ nomatch heq⟩
  iterate 8 refine forall_mem_leftJoinWith_of_set ?_ fun j _ h ↦ h
  exact forall_mem_leftJoinWith hitem (fun j _ o ho _ ↦ ⟨o, ho, rfl⟩)
    fun j ⟨o, ho, hkey⟩ hnone ↦ absurd hkey (Bool.eq_false_iff.1 (hnone o ho))

end Facts

/-! ### The full build -/

/-- The order of every visible item is visible. -/
def SilverLake.ItemsHaveOrders (lake : SilverLake) : Prop :=
  ∀ item ∈ lake.factSources.orderItems, ∃ o ∈ lake.factSources.orders, item.payload.orderId = o.key

/-- The text columns that are hashed in pairs are null or not empty, as their cleaning leaves
them. -/
structure SilverLake.TextsCleaned (lake : SilverLake) : Prop where
  payments : ∀ p ∈ lake.factSources.payments,
    NullOrText p.payload.paymentMethod ∧ NullOrText p.payload.paymentStatus
  shipments : ∀ s ∈ lake.factSources.shipments,
    NullOrText s.payload.carrier ∧ NullOrText s.payload.shipmentStatus

/-- The hash functions keep the column tuples of a Silver state apart. -/
structure SilverLake.KeysApart (fns : SparkFunctions) (lake : SilverLake) : Prop where
  dates : DatesApart fns (lake.factSources.orders.map fun o ↦ toDate o.createdAt)
  locations :
    TuplesApart fns (locationTuples fns (lake.rows .userAddresses) lake.factSources.orders)
  promotions : TuplesApart fns
    (promotionTuples fns lake.factSources.orderVouchers lake.factSources.vouchers)
  payments : TuplesApart fns (paymentTuples lake.factSources.payments)
  shippings : TuplesApart fns (shippingTuples lake.factSources.shipments)

variable {fns : SparkFunctions} {lake : SilverLake}

/-- **The dimensions without history have distinct keys.** -/
theorem nodup_fullDimensions (htexts : lake.TextsCleaned) (hapart : lake.KeysApart fns)
    {t : GoldTable} (hfacts : t ≠ .factSales) (hscd2 : t ∉ scd2Dimensions) :
    ((fullDimensions fns lake t).map (memberKey t)).Nodup := by
  cases t with
  | dimDate => exact nodup_dateKeys hapart.dates
  | dimTime => exact nodup_timeKeys _
  | dimLocation => exact nodup_locationKeys hapart.locations
  | dimPromotion => exact nodup_promotionKeys hapart.promotions
  | dimPayment => exact nodup_paymentKeys htexts.payments hapart.payments
  | dimShipping => exact nodup_shippingKeys htexts.shipments hapart.shippings
  | factSales => exact absurd rfl hfacts
  | dimCustomer | dimShop | dimCategory | dimProduct => exact absurd (by decide) hscd2

/-- **Every fact finds its members.** -/
theorem foreignKey_mem_fullDimensions (hitems : lake.ItemsHaveOrders) (dimensions : FactDimensions)
    {fact : FactRow} (hfact : fact ∈ buildFactSales fns lake.factSources dimensions)
    {reference : GoldTable × (FactRow → ℤ)} (hreference : reference ∈ foreignKeys)
    (hscd2 : reference.1 ∉ scd2Dimensions) :
    reference.2 fact ∈ (fullDimensions fns lake reference.1).map (memberKey reference.1) := by
  obtain ⟨j, -, before, j', after, hsort, rfl⟩ := (Window.mem_overPartition _ _).1 hfact
  have hj' : j' ∈ joinedItems fns lake.factSources dimensions := by
    have hmem : j' ∈ before ++ j' :: after := List.mem_append_right _ List.mem_cons_self
    rw [← hsort, List.mem_insertionSort, List.mem_filter] at hmem
    exact hmem.1
  obtain ⟨⟨o, ho, horder⟩, hpayment, hshipment, hpromotion⟩ :=
    isFound_of_mem_joinedItems dimensions hitems j' hj'
  simp only [foreignKeys, List.mem_cons, List.not_mem_nil, or_false] at hreference
  rcases hreference with rfl | rfl | rfl | rfl | rfl | rfl | rfl | rfl | rfl | rfl | rfl
  · -- the date
    show (j'.orderedAt.map fun t ↦ fns.dateFormat (toDate t)).getD 0 ∈ _
    rw [JoinedItem.orderedAt, horder]
    exact dateKey_mem ho
  · -- the time of day
    show (j'.orderedAt.map secondOfDayKey).getD 0 ∈ _
    rw [JoinedItem.orderedAt, horder]
    exact timeKey_mem ho
  iterate 4 exact absurd (by decide) hscd2
  · -- the promotion, or none
    show (j'.promotion.map fun p ↦ p.promotionKey).getD 0 ∈ _
    rcases hfound : j'.promotion with - | p
    · exact List.mem_cons_self
    · exact promotionKey_mem (hpromotion p hfound)
  · -- the payment, or none
    show pairKey fns (j'.payment.bind fun p ↦ p.payload.paymentMethod)
      (j'.payment.bind fun p ↦ p.payload.paymentStatus) ∈ _
    rcases hfound : j'.payment with - | p
    · exact List.mem_cons_self
    · exact paymentPairKey_mem (hpayment p hfound)
  · -- the shipment, or none
    show pairKey fns (j'.shipment.bind fun s ↦ s.payload.carrier)
      (j'.shipment.bind fun s ↦ s.payload.shipmentStatus) ∈ _
    rcases hfound : j'.shipment with - | s
    · exact List.mem_cons_self
    · exact shippingPairKey_mem (hshipment s hfound)
  · -- the two addresses of the order
    show locationKey fns (j'.order.bind fun o ↦ o.payload.shippingAddressSnapshot) ∈ _
    rw [horder]
    exact shippingLocationKey_mem ho
  · show locationKey fns (j'.order.bind fun o ↦ o.payload.billingAddressSnapshot) ∈ _
    rw [horder]
    exact billingLocationKey_mem ho

/-- **A full build is closed**: its six dimensions without history have distinct keys, and every key
of a fact row into one of them is the key of a member. -/
theorem fullDimensions_closed (fns : SparkFunctions) (lake : SilverLake)
    (dimensions : FactDimensions)
    (hitems : lake.ItemsHaveOrders) (htexts : lake.TextsCleaned) (hapart : lake.KeysApart fns) :
    (∀ t, t ≠ .factSales → t ∉ scd2Dimensions →
      ((fullDimensions fns lake t).map (memberKey t)).Nodup) ∧
    ∀ fact ∈ buildFactSales fns lake.factSources dimensions, ∀ reference ∈ foreignKeys,
      reference.1 ∉ scd2Dimensions →
        reference.2 fact ∈ (fullDimensions fns lake reference.1).map (memberKey reference.1) :=
  ⟨fun _ hfacts hscd2 ↦ nodup_fullDimensions htexts hapart hfacts hscd2,
    fun _ hfact _ hreference hscd2 ↦
      foreignKey_mem_fullDimensions hitems dimensions hfact hreference hscd2⟩

/-! ### Orders with parts missing -/

/-- A payment of order 1 with a method and a status. -/
def paidPayment (id : ℤ) (method status : Option Text) (updatedAt : Timestamp) : Payment :=
  let payment := smallPayment id updatedAt
  { payment with
    payload := { payment.payload with paymentMethod := method, paymentStatus := status } }

/-- Two orders: the first has two payments, the later one without a method, a shipment without a
carrier and a voucher whose master row is gone; the second has nothing. -/
def partialLake : SilverLake where
  tables
    | .orders => [smallCommit [storedRow (smallOrder 1 333 50 20 20),
        storedRow (smallOrder 2 100 0 0 0)]]
    | .orderItems => [smallCommit [storedRow (smallItem 1 11 21 1 333 20 20),
        storedRow (smallItem 2 21 21 1 100 0 0)]]
    | .orderVouchers => [smallCommit [storedRow ⟨51, 100, ⟨1, some 9, some 20, none⟩⟩]]
    | .payments => [smallCommit [storedRow (paidPayment 31 (some ['c']) (some ['f']) 100),
        storedRow (paidPayment 32 none (some ['p']) 110)]]
    | .shipments =>
      [smallCommit [storedRow ⟨41, 100, ⟨none, 1, some ['d'], none, none, none, none, none⟩⟩]]
    | .appUsers | .userAddresses | .shops | .categories | .products | .productVariants
    | .vouchers => [smallCommit []]
  histories _ := []

theorem keysApart_partialLake : partialLake.KeysApart .plain where
  dates := ⟨by decide +kernel, by decide +kernel⟩
  locations := ⟨by decide +kernel, by decide +kernel⟩
  promotions := ⟨by decide +kernel, by decide +kernel⟩
  payments := ⟨by decide +kernel, by decide +kernel⟩
  shippings := ⟨by decide +kernel, by decide +kernel⟩

theorem textsCleaned_partialLake : partialLake.TextsCleaned where
  payments := by
    unfold NullOrText
    decide +kernel
  shipments := by
    unfold NullOrText
    decide +kernel

/-- The full build of the two orders. -/
theorem fullDimensions_closed_partial :
    (∀ t, t ≠ .factSales → t ∉ scd2Dimensions →
      ((fullDimensions .plain partialLake t).map (memberKey t)).Nodup) ∧
    ∀ fact ∈ buildFactSales .plain partialLake.factSources smallDimensions,
      ∀ reference ∈ foreignKeys, reference.1 ∉ scd2Dimensions →
        reference.2 fact ∈
          (fullDimensions .plain partialLake reference.1).map (memberKey reference.1) :=
  fullDimensions_closed .plain partialLake smallDimensions
    (by
      unfold SilverLake.ItemsHaveOrders
      decide +kernel)
    textsCleaned_partialLake keysApart_partialLake

end LakehousePipeline
