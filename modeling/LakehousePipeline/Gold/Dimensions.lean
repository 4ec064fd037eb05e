import LakehousePipeline.Contracts
import LakehousePipeline.Gold.Scd2Replay

/-!
# The dimensions without history

Dates, times of day, locations, promotions, payments and shippings are the distinct values that
occur in the current Silver rows, each under a key computed from the value alone, so a fact row
finds its key without a join. Each of them has an unknown member with key 0.

The calendar columns of `dim_date` and the display columns of `dim_time` are functions of the key
that nothing reads; they and the technical timestamps are left out. Where the source keeps an
arbitrary one of several rows with one key (`dropDuplicates`), the first is kept here.
-/

namespace LakehousePipeline

/-! ### Dates -/

/-- A row of `dim_date`. -/
structure DateRow where
  dateKey : ℤ
  fullDate : Option ℤ
  deriving DecidableEq

/-- `build_dim_date`. -/
def buildDimDate (fns : SparkFunctions) (orders : List Order) : List DateRow :=
  { dateKey := 0, fullDate := none } ::
    (orders.map fun o ↦ toDate o.createdAt).dedup.map fun day ↦
      { dateKey := fns.dateFormat day, fullDate := some day }

/-! ### Times of day -/

/-- `second_of_day_key`: 1 to 86400, as 0 is the unknown member. -/
def secondOfDayKey (t : Timestamp) : ℤ :=
  hour t * 3600 + minute t * 60 + second t + 1

/-- A row of `dim_time`. -/
structure TimeRow where
  timeKey : ℤ
  hour24 : Option ℤ
  minuteNumber : Option ℤ
  secondNumber : Option ℤ
  deriving DecidableEq

/-- `build_dim_time`. -/
def buildDimTime (orders : List Order) : List TimeRow :=
  { timeKey := 0, hour24 := none, minuteNumber := none, secondNumber := none } ::
    Relational.dropDuplicatesOn (fun row ↦ row.timeKey) (orders.map fun o ↦
      { timeKey := secondOfDayKey o.createdAt
        hour24 := some (hour o.createdAt)
        minuteNumber := some (minute o.createdAt)
        secondNumber := some (second o.createdAt) })

/-! ### Locations -/

/-- `ADDRESS_FIELDS`. -/
def addressFieldNames : List Text :=
  ["address_type".toList, "recipient_name".toList, "phone_number".toList, "street".toList,
    "ward".toList, "district".toList, "city".toList, "state".toList, "postal_code".toList,
    "country".toList]

/-- The columns of an address in the order of `ADDRESS_FIELDS`. -/
def AddressFields.columns (fields : AddressFields) : List (Option Text) :=
  [fields.addressType, fields.recipientName, fields.phoneNumber, fields.street, fields.ward,
    fields.district, fields.city, fields.state, fields.postalCode, fields.country]

/-- The address columns of a JSON snapshot. -/
def AddressFields.ofJson (fns : SparkFunctions) (snapshot : Option Text) : AddressFields :=
  let field := fun name ↦ snapshot.bind fun json ↦ fns.getJsonObject json name
  { addressType := field "address_type".toList
    recipientName := field "recipient_name".toList
    phoneNumber := field "phone_number".toList
    street := field "street".toList
    ward := field "ward".toList
    district := field "district".toList
    city := field "city".toList
    state := field "state".toList
    postalCode := field "postal_code".toList
    country := field "country".toList }

/-- `location_hash_from_json`. -/
def locationHashFromJson (fns : SparkFunctions) (snapshot : Option Text) : Text :=
  naturalHash fns (addressFieldNames.map fun name ↦
    snapshot.bind fun json ↦ fns.getJsonObject json name)

/-- A row of `dim_location`. -/
structure LocationRow where
  locationKey : ℤ
  sourceAddressId : Option ℤ
  sourceCustomerId : Option ℤ
  naturalLocationHash : Text
  fields : AddressFields
  deriving DecidableEq

/-- The unknown location. -/
def unknownLocation : LocationRow where
  locationKey := 0
  sourceAddressId := none
  sourceCustomerId := none
  naturalLocationHash := "unknown".toList
  fields :=
    { addressType := some "unknown".toList
      recipientName := none
      phoneNumber := none
      street := none
      ward := none
      district := none
      city := some "Unknown".toList
      state := none
      postalCode := none
      country := some "Unknown".toList }

/-- The location of one of the two address snapshots of an order. -/
def snapshotLocation (fns : SparkFunctions) (customerId addressId : Option ℤ)
    (snapshot : Option Text) : LocationRow where
  locationKey := positiveHashKey fns (locationHashFromJson fns snapshot)
  sourceAddressId := addressId
  sourceCustomerId := customerId
  naturalLocationHash := locationHashFromJson fns snapshot
  fields := AddressFields.ofJson fns snapshot

/-- `build_dim_location`: the addresses and the address snapshots of the orders. -/
def buildDimLocation (fns : SparkFunctions) (addresses : List Address) (orders : List Order) :
    List LocationRow :=
  unknownLocation :: Relational.dropDuplicatesOn (fun row ↦ row.locationKey)
    (addresses.map (fun a ↦
        { locationKey := positiveHashKey fns (naturalHash fns a.payload.fields.columns)
          sourceAddressId := some a.key
          sourceCustomerId := a.payload.userId
          naturalLocationHash := naturalHash fns a.payload.fields.columns
          fields := a.payload.fields }) ++
      orders.map (fun o ↦ snapshotLocation fns o.payload.customerId o.payload.shippingAddressId
        o.payload.shippingAddressSnapshot) ++
      orders.map (fun o ↦ snapshotLocation fns o.payload.customerId o.payload.billingAddressId
        o.payload.billingAddressSnapshot))

/-! ### Promotions -/

/-- A row of `order_promotion_keys`: the vouchers used by one order. -/
structure OrderPromotion where
  orderId : ℤ
  voucherCount : ℤ
  voucherCodes : Text
  voucherNames : Text
  discountTypes : Text
  promotionScope : Text
  promotionStartAt : Option Timestamp
  promotionEndAt : Option Timestamp
  minimumOrderAmount : Option ℤ
  isActive : Option Bool
  naturalPromotionHash : Text
  promotionKey : ℤ
  deriving DecidableEq

/-- `concat_ws(",", sort_array(collect_set(_)))`. -/
def commaSeparatedSet (values : List (Option Text)) : Text :=
  concatWs [','] ((sortedSetOf values).map some)

/-- The aggregate over the vouchers of one order. -/
def orderPromotion (fns : SparkFunctions) (orderId : ℤ)
    (uses : List (OrderVoucher × Option Voucher)) : OrderPromotion :=
  let column {α : Type} (get : VoucherColumns → Option α) : List (Option α) :=
    uses.map fun use ↦ use.2.bind fun v ↦ get v.payload
  let codes := commaSeparatedSet (column VoucherColumns.voucherCode)
  let types := commaSeparatedSet (column VoucherColumns.discountType)
  let scope := commaSeparatedSet (column VoucherColumns.scopeJson)
  let natural := naturalHash fns [some codes, some types, some scope]
  { orderId := orderId
    voucherCount := (uses.filterMap fun use ↦ use.1.payload.voucherId).length
    voucherCodes := codes
    voucherNames := commaSeparatedSet (column VoucherColumns.voucherName)
    discountTypes := types
    promotionScope := scope
    promotionStartAt := minOf (column VoucherColumns.startsAt)
    promotionEndAt := maxOf (column VoucherColumns.endsAt)
    minimumOrderAmount := maxOf (column VoucherColumns.minimumOrderAmount)
    isActive := (maxOf (column fun v ↦ v.isActive.map fun b ↦ if b then 1 else 0)).map (· ≠ 0)
    naturalPromotionHash := natural
    promotionKey := positiveHashKey fns natural }

/-- `order_promotion_keys`. -/
def orderPromotionKeys (fns : SparkFunctions) (orderVouchers : List OrderVoucher)
    (vouchers : List Voucher) : List OrderPromotion :=
  let uses := Relational.leftJoin
    (fun (use : OrderVoucher) (v : Voucher) ↦ equalColumns use.payload.voucherId (some v.key))
    orderVouchers vouchers
  (uses.map fun use ↦ use.1.payload.orderId).dedup.map fun orderId ↦
    orderPromotion fns orderId (uses.filter fun use ↦ use.1.payload.orderId = orderId)

/-- A row of `dim_promotion`. -/
structure PromotionRow where
  promotionKey : ℤ
  naturalPromotionHash : Text
  promotionType : Text
  voucherCount : ℤ
  voucherCodes : Text
  voucherNames : Option Text
  discountTypes : Option Text
  promotionScope : Text
  promotionStartAt : Option Timestamp
  promotionEndAt : Option Timestamp
  minimumOrderAmount : Option ℤ
  isActive : Option Bool
  deriving DecidableEq

/-- The member for orders without a voucher. -/
def unknownPromotion : PromotionRow where
  promotionKey := 0
  naturalPromotionHash := "none".toList
  promotionType := "none".toList
  voucherCount := 0
  voucherCodes := "NO_VOUCHER".toList
  voucherNames := none
  discountTypes := none
  promotionScope := "none".toList
  promotionStartAt := none
  promotionEndAt := none
  minimumOrderAmount := none
  isActive := some false

/-- The member of a combination of vouchers. -/
def PromotionRow.ofOrder (p : OrderPromotion) : PromotionRow where
  promotionKey := p.promotionKey
  naturalPromotionHash := p.naturalPromotionHash
  promotionType := if 0 < p.voucherCount then "voucher".toList else "none".toList
  voucherCount := p.voucherCount
  voucherCodes := p.voucherCodes
  voucherNames := some p.voucherNames
  discountTypes := some p.discountTypes
  promotionScope := p.promotionScope
  promotionStartAt := p.promotionStartAt
  promotionEndAt := p.promotionEndAt
  minimumOrderAmount := p.minimumOrderAmount
  isActive := p.isActive

/-- `build_dim_promotion`. -/
def buildDimPromotion (fns : SparkFunctions) (orderVouchers : List OrderVoucher)
    (vouchers : List Voucher) : List PromotionRow :=
  unknownPromotion :: Relational.dropDuplicatesOn (fun row ↦ row.promotionKey)
    ((orderPromotionKeys fns orderVouchers vouchers).map PromotionRow.ofOrder)

/-! ### Payments and shippings -/

/-- A row of `dim_payment`. -/
structure PaymentRow where
  paymentKey : ℤ
  naturalPaymentHash : Text
  paymentMethod : Option Text
  paymentMethodGroup : Option Text
  paymentStatus : Option Text
  paidFlag : Option Bool
  deriving DecidableEq

/-- The unknown payment. -/
def unknownPayment : PaymentRow where
  paymentKey := 0
  naturalPaymentHash := "unknown".toList
  paymentMethod := some "unknown".toList
  paymentMethodGroup := some "unknown".toList
  paymentStatus := some "unknown".toList
  paidFlag := some false

/-- `build_dim_payment`: the distinct pairs of method and status. -/
def buildDimPayment (fns : SparkFunctions) (payments : List Payment) : List PaymentRow :=
  unknownPayment ::
    (payments.map fun p ↦ (p.payload.paymentMethod, p.payload.paymentStatus)).dedup.map
      fun (method, status) ↦
        { paymentKey := positiveHashKey fns (naturalHash fns [method, status])
          naturalPaymentHash := naturalHash fns [method, status]
          paymentMethod := method
          paymentMethodGroup := method
          paymentStatus := status
          paidFlag := status.map fun s ↦ s = "paid".toList }

/-- A row of `dim_shipping`. -/
structure ShippingRow where
  shippingKey : ℤ
  naturalShippingHash : Text
  carrier : Option Text
  shipmentStatus : Option Text
  shippedFlag : Option Bool
  deliveredFlag : Option Bool
  deriving DecidableEq

/-- The unknown shipping. -/
def unknownShipping : ShippingRow where
  shippingKey := 0
  naturalShippingHash := "unknown".toList
  carrier := some "unknown".toList
  shipmentStatus := some "unknown".toList
  shippedFlag := some false
  deliveredFlag := some false

/-- `build_dim_shipping`: the distinct pairs of carrier and status. -/
def buildDimShipping (fns : SparkFunctions) (shipments : List Shipment) : List ShippingRow :=
  unknownShipping ::
    (shipments.map fun s ↦ (s.payload.carrier, s.payload.shipmentStatus)).dedup.map
      fun (carrier, status) ↦
        { shippingKey := positiveHashKey fns (naturalHash fns [carrier, status])
          naturalShippingHash := naturalHash fns [carrier, status]
          carrier := carrier
          shipmentStatus := status
          shippedFlag := status.map fun s ↦
            s ∈ ["picked_up".toList, "in_transit".toList, "delivered".toList]
          deliveredFlag := status.map fun s ↦ s = "delivered".toList }

end LakehousePipeline
