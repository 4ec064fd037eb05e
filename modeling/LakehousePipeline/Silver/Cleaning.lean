import LakehousePipeline.Gold.FullBuildClosure
import LakehousePipeline.Silver.HeldEvent
import Mathlib.Data.List.DropRight

/-!
# The cleaning of the Silver tables

The row-wise cleaning, which the other modules take as a parameter, from the steps of the source:
`clean_text` trims texts and makes empty ones null, `normalize_lower` and `normalize_upper` change
the case, and `normalize_phone` keeps the digits of a phone number and a plus sign before them. Each
works on the columns of a list that the table has.

A text column of a Silver table is then null, or as its steps leave it (`IsClean`), in the current
rows and in the change history alike, for whatever reaches Silver (`clean_of_run`). The steps have
an order: a phone number without a digit is emptied after the empty texts have been made null, so it
stays an empty text, and it is the one thing that cleaning again would change (`cleaning_twice`).
Payment and shipment states are lowercased only. They are null or not empty if they are in Bronze,
where the source checks them.

Spark's case mappings are parameters.

## From tables to columns

The source loops over lists of column names and skips those a table does not have.
`SilverTable.textColumns` gives the text columns of a table by name and `SilverTable.mapText`
changes them, so a step is `mapText` with a function of the name. `cleaning_eq` composes the steps:
the cleaning of a table is that of each column (`cleanedColumn`), and what is proved of a column
holds of every table. Where the order of steps matters is settled there once. No column is
lowercased and uppercased, and phone numbers keep their case, so all that remains is that a phone
number is normalized after it has been cleaned.

## What is asked of the case mappings

Lowering a text may lengthen it and is not a matter of single characters, so it is not computed
here. `CaseFunctions.Lawful` lists what is used: mapping again changes nothing, no text becomes
empty, and no space comes or goes at an end. The mapping of the ASCII letters has these properties
(`CaseFunctions.lawful_ascii`).
-/

namespace LakehousePipeline

/-! ### Spark's text functions -/

/-- `lower` and `upper`. -/
structure CaseFunctions where
  lower : Text → Text
  upper : Text → Text

/-- **What Spark's case mappings keep.** Mapping again changes nothing, no text disappears, and no
space comes or goes at an end. -/
structure CaseFunctions.Lawful (case : CaseFunctions) : Prop where
  lower_lower : ∀ text, case.lower (case.lower text) = case.lower text
  upper_upper : ∀ text, case.upper (case.upper text) = case.upper text
  lower_ne_nil : ∀ text, text ≠ [] → case.lower text ≠ []
  upper_ne_nil : ∀ text, text ≠ [] → case.upper text ≠ []
  trim_lower : ∀ text, trim text = text → trim (case.lower text) = case.lower text
  trim_upper : ∀ text, trim text = text → trim (case.upper text) = case.upper text

/-- Trimming drops spaces at both ends. -/
theorem trim_eq (text : Text) :
    trim text = (text.dropWhile (· = ' ')).rdropWhile (· = ' ') := rfl

/-- A text is trimmed where it neither begins nor ends with a space. -/
theorem trim_eq_self_of_ends {text : Text} (hhead : ∀ c ∈ text.head?, c ≠ ' ')
    (hlast : ∀ c ∈ text.getLast?, c ≠ ' ') : trim text = text := by
  have hdrop : text.dropWhile (· = ' ') = text := by
    cases text with
    | nil => rfl
    | cons c rest => exact List.dropWhile_cons_of_neg (by simpa using hhead c rfl)
  rw [trim_eq, hdrop]
  refine List.rdropWhile_eq_self_iff.2 fun hne ↦ ?_
  simpa using hlast _ (List.getLast?_eq_some_getLast hne)

/-- A trimmed text neither begins nor ends with a space. -/
theorem ends_of_trim (text : Text) :
    (∀ c ∈ (trim text).head?, c ≠ ' ') ∧ ∀ c ∈ (trim text).getLast?, c ≠ ' ' := by
  rw [trim_eq]
  constructor
  · intro c hc
    obtain ⟨rest, hrest⟩ := List.rdropWhile_prefix (fun c : Char ↦ decide (c = ' '))
      (l := text.dropWhile (· = ' '))
    have hhead : (text.dropWhile (· = ' ')).head? = some c := by
      rw [← hrest, List.head?_append, Option.mem_def.1 hc]
      rfl
    have hnot := List.head?_dropWhile_not (fun c : Char ↦ decide (c = ' ')) text
    rw [hhead] at hnot
    exact of_decide_eq_false hnot
  · intro c hc
    obtain ⟨hne, hlast⟩ := List.mem_getLast?_eq_getLast hc
    have hnot := List.rdropWhile_last_not (fun c : Char ↦ decide (c = ' ')) _ hne
    rw [← hlast] at hnot
    exact mt decide_eq_true hnot

/-- Trimming again changes nothing. -/
theorem trim_trim (text : Text) : trim (trim text) = trim text :=
  trim_eq_self_of_ends (ends_of_trim text).1 (ends_of_trim text).2

/-! ### The text columns of a table -/

/-- The text columns by name. -/
def SilverTable.textColumns : (t : SilverTable) → SilverColumns t → List (Text × Option Text)
  | .appUsers, p =>
    [("public_user_id".toList, p.publicUserId), ("username".toList, p.username),
      ("email".toList, p.email), ("first_name".toList, p.firstName),
      ("last_name".toList, p.lastName), ("phone_number".toList, p.phoneNumber),
      ("status".toList, p.status)]
  | .userAddresses, p =>
    [("address_type".toList, p.fields.addressType),
      ("recipient_name".toList, p.fields.recipientName),
      ("phone_number".toList, p.fields.phoneNumber), ("street".toList, p.fields.street),
      ("ward".toList, p.fields.ward), ("district".toList, p.fields.district),
      ("city".toList, p.fields.city), ("state".toList, p.fields.state),
      ("postal_code".toList, p.fields.postalCode), ("country".toList, p.fields.country)]
  | .shops, p =>
    [("public_shop_id".toList, p.publicShopId), ("shop_name".toList, p.shopName),
      ("shop_slug".toList, p.shopSlug), ("status".toList, p.status)]
  | .categories, p =>
    [("category_name".toList, p.categoryName), ("slug".toList, p.slug)]
  | .products, p =>
    [("public_product_id".toList, p.publicProductId), ("product_sku".toList, p.productSku),
      ("product_slug".toList, p.productSlug), ("product_name".toList, p.productName),
      ("brand".toList, p.brand), ("attributes_json".toList, p.attributesJson),
      ("images_json".toList, p.imagesJson), ("status".toList, p.status)]
  | .productVariants, p =>
    [("public_variant_id".toList, p.publicVariantId), ("variant_sku".toList, p.variantSku),
      ("variant_name".toList, p.variantName), ("options_json".toList, p.optionsJson),
      ("currency".toList, p.currency), ("images_json".toList, p.imagesJson),
      ("status".toList, p.status)]
  | .vouchers, p =>
    [("voucher_code".toList, p.voucherCode), ("voucher_name".toList, p.voucherName),
      ("discount_type".toList, p.discountType), ("scope_json".toList, p.scopeJson)]
  | .orders, p =>
    [("public_order_id".toList, p.publicOrderId), ("order_number".toList, p.orderNumber),
      ("order_status".toList, p.orderStatus), ("payment_status".toList, p.paymentStatus),
      ("shipping_address_snapshot".toList, p.shippingAddressSnapshot),
      ("billing_address_snapshot".toList, p.billingAddressSnapshot),
      ("currency".toList, p.currency)]
  | .orderItems, p =>
    [("product_name_snapshot".toList, p.productNameSnapshot),
      ("product_sku_snapshot".toList, p.productSkuSnapshot),
      ("variant_name_snapshot".toList, p.variantNameSnapshot),
      ("variant_sku_snapshot".toList, p.variantSkuSnapshot),
      ("variant_options_snapshot".toList, p.variantOptionsSnapshot),
      ("currency".toList, p.currency)]
  | .orderVouchers, _ => []
  | .payments, p =>
    [("public_payment_id".toList, p.publicPaymentId), ("payment_method".toList, p.paymentMethod),
      ("payment_status".toList, p.paymentStatus), ("currency".toList, p.currency)]
  | .shipments, p =>
    [("public_shipment_id".toList, p.publicShipmentId),
      ("shipment_status".toList, p.shipmentStatus), ("carrier".toList, p.carrier),
      ("tracking_number".toList, p.trackingNumber)]

/-- A change of the text columns by name. -/
def SilverTable.mapText (f : Text → Option Text → Option Text) :
    (t : SilverTable) → SilverColumns t → SilverColumns t
  | .appUsers, p =>
    { p with
      publicUserId := f "public_user_id".toList p.publicUserId
      username := f "username".toList p.username
      email := f "email".toList p.email
      firstName := f "first_name".toList p.firstName
      lastName := f "last_name".toList p.lastName
      phoneNumber := f "phone_number".toList p.phoneNumber
      status := f "status".toList p.status }
  | .userAddresses, p =>
    { p with fields :=
      { addressType := f "address_type".toList p.fields.addressType
        recipientName := f "recipient_name".toList p.fields.recipientName
        phoneNumber := f "phone_number".toList p.fields.phoneNumber
        street := f "street".toList p.fields.street
        ward := f "ward".toList p.fields.ward
        district := f "district".toList p.fields.district
        city := f "city".toList p.fields.city
        state := f "state".toList p.fields.state
        postalCode := f "postal_code".toList p.fields.postalCode
        country := f "country".toList p.fields.country } }
  | .shops, p =>
    { p with
      publicShopId := f "public_shop_id".toList p.publicShopId
      shopName := f "shop_name".toList p.shopName
      shopSlug := f "shop_slug".toList p.shopSlug
      status := f "status".toList p.status }
  | .categories, p =>
    { p with
      categoryName := f "category_name".toList p.categoryName
      slug := f "slug".toList p.slug }
  | .products, p =>
    { p with
      publicProductId := f "public_product_id".toList p.publicProductId
      productSku := f "product_sku".toList p.productSku
      productSlug := f "product_slug".toList p.productSlug
      productName := f "product_name".toList p.productName
      brand := f "brand".toList p.brand
      attributesJson := f "attributes_json".toList p.attributesJson
      imagesJson := f "images_json".toList p.imagesJson
      status := f "status".toList p.status }
  | .productVariants, p =>
    { p with
      publicVariantId := f "public_variant_id".toList p.publicVariantId
      variantSku := f "variant_sku".toList p.variantSku
      variantName := f "variant_name".toList p.variantName
      optionsJson := f "options_json".toList p.optionsJson
      currency := f "currency".toList p.currency
      imagesJson := f "images_json".toList p.imagesJson
      status := f "status".toList p.status }
  | .vouchers, p =>
    { p with
      voucherCode := f "voucher_code".toList p.voucherCode
      voucherName := f "voucher_name".toList p.voucherName
      discountType := f "discount_type".toList p.discountType
      scopeJson := f "scope_json".toList p.scopeJson }
  | .orders, p =>
    { p with
      publicOrderId := f "public_order_id".toList p.publicOrderId
      orderNumber := f "order_number".toList p.orderNumber
      orderStatus := f "order_status".toList p.orderStatus
      paymentStatus := f "payment_status".toList p.paymentStatus
      shippingAddressSnapshot := f "shipping_address_snapshot".toList p.shippingAddressSnapshot
      billingAddressSnapshot := f "billing_address_snapshot".toList p.billingAddressSnapshot
      currency := f "currency".toList p.currency }
  | .orderItems, p =>
    { p with
      productNameSnapshot := f "product_name_snapshot".toList p.productNameSnapshot
      productSkuSnapshot := f "product_sku_snapshot".toList p.productSkuSnapshot
      variantNameSnapshot := f "variant_name_snapshot".toList p.variantNameSnapshot
      variantSkuSnapshot := f "variant_sku_snapshot".toList p.variantSkuSnapshot
      variantOptionsSnapshot := f "variant_options_snapshot".toList p.variantOptionsSnapshot
      currency := f "currency".toList p.currency }
  | .orderVouchers, p => p
  | .payments, p =>
    { p with
      publicPaymentId := f "public_payment_id".toList p.publicPaymentId
      paymentMethod := f "payment_method".toList p.paymentMethod
      paymentStatus := f "payment_status".toList p.paymentStatus
      currency := f "currency".toList p.currency }
  | .shipments, p =>
    { p with
      publicShipmentId := f "public_shipment_id".toList p.publicShipmentId
      shipmentStatus := f "shipment_status".toList p.shipmentStatus
      carrier := f "carrier".toList p.carrier
      trackingNumber := f "tracking_number".toList p.trackingNumber }

section MapText

variable {t : SilverTable} {f g : Text → Option Text → Option Text} {p : SilverColumns t}

/-- The text columns after a change. -/
theorem textColumns_mapText :
    t.textColumns (t.mapText f p) = (t.textColumns p).map fun c ↦ (c.1, f c.1 c.2) := by
  cases t <;> rfl

/-- A change after a change. -/
theorem mapText_mapText :
    t.mapText f (t.mapText g p) = t.mapText (fun name ↦ f name ∘ g name) p := by
  cases t <;> rfl

/-- A change that leaves each text column leaves all. -/
theorem mapText_eq_self_iff : t.mapText f p = p ↔ ∀ c ∈ t.textColumns p, f c.1 c.2 = c.2 := by
  constructor
  · intro h c hc
    have hcolumns : (t.textColumns p).map id =
        (t.textColumns p).map fun c ↦ (c.1, f c.1 c.2) := by
      rw [← textColumns_mapText, h, List.map_id]
    exact (congrArg Prod.snd (List.map_inj_left.1 hcolumns c hc)).symm
  · intro h
    cases t <;> cases p <;> simp_all [SilverTable.mapText, SilverTable.textColumns] <;> rfl

end MapText

/-! ### The steps -/

section Steps

variable (case : CaseFunctions) (columns : List Text) (t : SilverTable) (p : SilverColumns t)

/-- `clean_text` of a column. -/
def cleanedText (column : Option Text) : Option Text :=
  column.bind fun text ↦ if trim text = [] then none else some (trim text)

/-- `normalize_phone` of a column. -/
def normalizedPhone (column : Option Text) : Option Text :=
  column.map fun text ↦
    (if text.head? = some '+' then ['+'] else []) ++ text.filter fun c ↦ '0' ≤ c ∧ c ≤ '9'

/-- `clean_text`. -/
def cleanText : SilverColumns t :=
  t.mapText (fun name column ↦ if name ∈ columns then cleanedText column else column) p

/-- `normalize_lower`. -/
def normalizeLower : SilverColumns t :=
  t.mapText (fun name column ↦ if name ∈ columns then column.map case.lower else column) p

/-- `normalize_upper`. -/
def normalizeUpper : SilverColumns t :=
  t.mapText (fun name column ↦ if name ∈ columns then column.map case.upper else column) p

/-- `normalize_phone`. -/
def normalizePhone : SilverColumns t :=
  t.mapText (fun name column ↦
    if name = "phone_number".toList then normalizedPhone column else column) p

end Steps

/-- The columns `transform_customer_table` gives `clean_text`. -/
def customerTextColumns : SilverTable → List Text
  | .appUsers =>
    ["username".toList, "email".toList, "first_name".toList, "last_name".toList,
      "phone_number".toList]
  | .userAddresses =>
    ["address_type".toList, "recipient_name".toList, "phone_number".toList, "street".toList,
      "ward".toList, "district".toList, "city".toList, "state".toList, "postal_code".toList,
      "country".toList]
  | _ => []

/-- The columns it gives `normalize_lower`. -/
def customerLowerColumns : SilverTable → List Text
  | .appUsers => ["username".toList, "email".toList, "status".toList]
  | .userAddresses => ["address_type".toList]
  | _ => []

/-- `TEXT_COLUMNS`. -/
def salesTextColumns : List Text :=
  ["shop_name".toList, "shop_slug".toList, "category_name".toList, "slug".toList,
    "product_sku".toList, "product_slug".toList, "product_name".toList, "brand".toList,
    "variant_sku".toList, "variant_name".toList, "voucher_code".toList, "voucher_name".toList,
    "order_number".toList, "product_name_snapshot".toList, "product_sku_snapshot".toList,
    "variant_name_snapshot".toList, "variant_sku_snapshot".toList, "payment_method".toList,
    "carrier".toList, "tracking_number".toList]

/-- `LOWER_COLUMNS`. -/
def salesLowerColumns : List Text :=
  ["status".toList, "order_status".toList, "payment_status".toList, "shipment_status".toList,
    "discount_type".toList, "payment_method".toList]

/-- `UPPER_COLUMNS`. -/
def salesUpperColumns : List Text :=
  ["currency".toList, "product_sku".toList, "variant_sku".toList, "voucher_code".toList,
    "product_sku_snapshot".toList, "variant_sku_snapshot".toList]

/-- `CUSTOMER_TABLES`. -/
def customerTables : List SilverTable :=
  [.appUsers, .userAddresses]

/-- The cleaning in `transform_customer_table` and `transform_customer_history`. -/
def cleanCustomerColumns (case : CaseFunctions) (t : SilverTable) (p : SilverColumns t) :
    SilverColumns t :=
  normalizePhone t (normalizeLower case (customerLowerColumns t) t
    (cleanText (customerTextColumns t) t p))

/-- The cleaning in `transform_sales_table` and `transform_sales_history`. -/
def cleanSalesColumns (case : CaseFunctions) (t : SilverTable) (p : SilverColumns t) :
    SilverColumns t :=
  normalizeUpper case salesUpperColumns t (normalizeLower case salesLowerColumns t
    (cleanText salesTextColumns t p))

/-- The cleaning of each table. -/
def cleaning (case : CaseFunctions) : Cleaning := fun t ↦
  if t ∈ customerTables then cleanCustomerColumns case t else cleanSalesColumns case t

/-! ### What becomes of a column -/

/-- The columns of a table that are given `clean_text`. -/
def SilverTable.cleanedColumns (t : SilverTable) : List Text :=
  if t ∈ customerTables then customerTextColumns t else salesTextColumns

/-- Those that are lowercased. -/
def SilverTable.lowerColumns (t : SilverTable) : List Text :=
  if t ∈ customerTables then customerLowerColumns t else salesLowerColumns

/-- Those that are uppercased. -/
def SilverTable.upperColumns (t : SilverTable) : List Text :=
  if t ∈ customerTables then [] else salesUpperColumns

/-- Those that are phone numbers. -/
def SilverTable.phoneColumns (t : SilverTable) : List Text :=
  if t ∈ customerTables then ["phone_number".toList] else []

/-- The steps for one column, in their order. -/
def cleanedColumn (case : CaseFunctions) (t : SilverTable) (name : Text) (column : Option Text) :
    Option Text :=
  let cleaned := if name ∈ t.cleanedColumns then cleanedText column else column
  let lower := if name ∈ t.lowerColumns then cleaned.map case.lower else cleaned
  let upper := if name ∈ t.upperColumns then lower.map case.upper else lower
  if name ∈ t.phoneColumns then normalizedPhone upper else upper

/-- **The cleaning works column by column.** -/
theorem cleaning_eq (case : CaseFunctions) (t : SilverTable) (p : SilverColumns t) :
    cleaning case t p = t.mapText (cleanedColumn case t) p := by
  rw [cleaning]
  split
  case isTrue h =>
    rw [cleanCustomerColumns, normalizePhone, normalizeLower, cleanText, mapText_mapText,
      mapText_mapText]
    congr 1
    funext name column
    simp only [cleanedColumn, SilverTable.cleanedColumns, SilverTable.lowerColumns,
      SilverTable.upperColumns, SilverTable.phoneColumns, if_pos h, Function.comp_apply,
      List.not_mem_nil, if_false, List.mem_singleton]
  case isFalse h =>
    rw [cleanSalesColumns, normalizeUpper, normalizeLower, cleanText, mapText_mapText,
      mapText_mapText]
    congr 1
    funext name column
    simp only [cleanedColumn, SilverTable.cleanedColumns, SilverTable.lowerColumns,
      SilverTable.upperColumns, SilverTable.phoneColumns, if_neg h, Function.comp_apply,
      List.not_mem_nil, if_false]

/-! ### Clean columns -/

/-- **A text as the steps of its column leave it.** -/
structure IsCleanText (case : CaseFunctions) (t : SilverTable) (name text : Text) : Prop where
  /-- Trimmed, -/
  trimmed : name ∈ t.cleanedColumns → trim text = text
  /-- not empty, unless it is a phone number, -/
  nonempty : name ∈ t.cleanedColumns → name ∉ t.phoneColumns → text ≠ []
  /-- in lower case, -/
  lower : name ∈ t.lowerColumns → case.lower text = text
  /-- in upper case, -/
  upper : name ∈ t.upperColumns → case.upper text = text
  /-- or digits after at most a plus sign. -/
  phone : name ∈ t.phoneColumns → ∃ digits : Text, (text = digits ∨ text = '+' :: digits) ∧
    ∀ c ∈ digits, '0' ≤ c ∧ c ≤ '9'

/-- All text columns are null or clean. -/
def IsClean (case : CaseFunctions) (t : SilverTable) (p : SilverColumns t) : Prop :=
  ∀ c ∈ t.textColumns p, ∀ text ∈ c.2, IsCleanText case t c.1 text

/-- No column is lowercased and uppercased. -/
theorem not_mem_upperColumns (t : SilverTable) :
    ∀ name ∈ t.lowerColumns, name ∉ t.upperColumns := by
  cases t <;> decide

/-- Phone numbers are trimmed and keep their case. -/
theorem mem_phoneColumns (t : SilverTable) : ∀ name ∈ t.phoneColumns,
    name ∈ t.cleanedColumns ∧ name ∉ t.lowerColumns ∧ name ∉ t.upperColumns := by
  cases t <;> decide

/-- The change of case of a column. -/
def casing (case : CaseFunctions) (t : SilverTable) (name : Text) : Text → Text :=
  if name ∈ t.lowerColumns then case.lower else if name ∈ t.upperColumns then case.upper else id

section Column

variable {case : CaseFunctions} {t : SilverTable} {name text : Text} {column : Option Text}

/-- A phone number is cleaned and then normalized. -/
theorem cleanedColumn_of_phone (h : name ∈ t.phoneColumns) :
    cleanedColumn case t name column = normalizedPhone (cleanedText column) := by
  obtain ⟨hcleaned, hlower, hupper⟩ := mem_phoneColumns t name h
  rw [cleanedColumn, if_pos hcleaned, if_neg hlower, if_neg hupper, if_pos h]

/-- Any other column is cleaned, if it is, and its case is changed, if it is. -/
theorem cleanedColumn_of_not_phone (h : name ∉ t.phoneColumns) :
    cleanedColumn case t name column =
      (if name ∈ t.cleanedColumns then cleanedText column else column).map
        (casing case t name) := by
  rw [cleanedColumn, if_neg h, casing]
  by_cases hlower : name ∈ t.lowerColumns
  · rw [if_pos hlower, if_pos hlower, if_neg (not_mem_upperColumns t name hlower)]
  · rw [if_neg hlower, if_neg hlower]
    split
    · rfl
    · exact Option.map_id'.symm

/-- Whatever the change of case is, it has the properties of the mappings. -/
theorem casing_spec (h : case.Lawful) (t : SilverTable) (name text : Text) :
    casing case t name (casing case t name text) = casing case t name text ∧
      (text ≠ [] → casing case t name text ≠ []) ∧
      (trim text = text → trim (casing case t name text) = casing case t name text) := by
  rw [casing]
  split
  · exact ⟨h.lower_lower text, h.lower_ne_nil text, h.trim_lower text⟩
  · split
    · exact ⟨h.upper_upper text, h.upper_ne_nil text, h.trim_upper text⟩
    · exact ⟨rfl, id, id⟩

/-- A cleaned text is trimmed and not empty. -/
theorem trimmed_of_cleanedText (h : cleanedText column = some text) :
    trim text = text ∧ text ≠ [] := by
  obtain ⟨source, -, h⟩ := Option.bind_eq_some_iff.1 h
  obtain ⟨hne, heq⟩ := Option.ite_none_left_eq_some.1 h
  obtain rfl := Option.some.inj heq
  exact ⟨trim_trim source, hne⟩

/-- Such a text is left as it is. -/
theorem cleanedText_eq_self (htrim : trim text = text) (hne : text ≠ []) :
    cleanedText (some text) = some text := by
  rw [cleanedText, Option.bind_some, htrim, if_neg hne]

/-- A phone number has no space. -/
theorem trim_phone {digits : Text} (hphone : text = digits ∨ text = '+' :: digits)
    (hdigits : ∀ c ∈ digits, '0' ≤ c ∧ c ≤ '9') : trim text = text := by
  have hspace : ∀ c ∈ text, c ≠ ' ' := by
    rintro c hc rfl
    have hin : ' ' ∈ digits := by
      rcases hphone with rfl | rfl
      · exact hc
      · exact (List.mem_cons.1 hc).resolve_left (by decide)
    exact absurd (hdigits ' ' hin).1 (by decide)
  exact trim_eq_self_of_ends (fun c hc ↦ hspace c (List.mem_of_mem_head? hc))
    fun c hc ↦ hspace c (List.mem_of_mem_getLast? hc)

/-- A normalized phone number has digits after at most a plus sign. -/
theorem phone_of_normalizedPhone (h : normalizedPhone column = some text) :
    ∃ digits : Text, (text = digits ∨ text = '+' :: digits) ∧
      ∀ c ∈ digits, '0' ≤ c ∧ c ≤ '9' := by
  obtain ⟨source, -, rfl⟩ := Option.map_eq_some_iff.1 h
  refine ⟨source.filter fun c ↦ '0' ≤ c ∧ c ≤ '9', ?_, fun c hc ↦ ?_⟩
  · split
    · exact Or.inr rfl
    · exact Or.inl rfl
  · exact of_decide_eq_true (List.mem_filter.1 hc).2

/-- A phone number stays as it is. -/
theorem normalizedPhone_eq_self {digits : Text} (hphone : text = digits ∨ text = '+' :: digits)
    (hdigits : ∀ c ∈ digits, '0' ≤ c ∧ c ≤ '9') : normalizedPhone (some text) = some text := by
  have hfilter : digits.filter (fun c ↦ '0' ≤ c ∧ c ≤ '9') = digits :=
    List.filter_eq_self.2 fun c hc ↦ decide_eq_true (hdigits c hc)
  rcases hphone with rfl | rfl
  · have hplus : text.head? ≠ some '+' := by
      intro hhead
      exact absurd (hdigits '+' (List.mem_of_mem_head? hhead)).1 (by decide)
    rw [normalizedPhone, Option.map_some, if_neg hplus, hfilter]
    rfl
  · have hsign : ('+' :: digits).filter (fun c ↦ '0' ≤ c ∧ c ≤ '9') = digits := by
      rw [List.filter_cons_of_neg (by decide), hfilter]
    rw [normalizedPhone, Option.map_some, List.head?_cons, if_pos rfl, hsign]
    rfl

/-- **A cleaned column** is null or clean. -/
theorem isCleanText_cleanedColumn (h : case.Lawful)
    (heq : cleanedColumn case t name column = some text) : IsCleanText case t name text := by
  by_cases hphone : name ∈ t.phoneColumns
  · obtain ⟨-, hlower, hupper⟩ := mem_phoneColumns t name hphone
    rw [cleanedColumn_of_phone hphone] at heq
    obtain ⟨digits, hform, hdigits⟩ := phone_of_normalizedPhone heq
    exact ⟨fun _ ↦ trim_phone hform hdigits, fun _ hnot ↦ absurd hphone hnot,
      fun hin ↦ absurd hin hlower, fun hin ↦ absurd hin hupper, fun _ ↦ ⟨digits, hform, hdigits⟩⟩
  · rw [cleanedColumn_of_not_phone hphone] at heq
    obtain ⟨source, hsource, rfl⟩ := Option.map_eq_some_iff.1 heq
    obtain ⟨hagain, hnonempty, htrim⟩ := casing_spec h t name source
    have hcleaned : name ∈ t.cleanedColumns → trim source = source ∧ source ≠ [] := fun hin ↦
      trimmed_of_cleanedText (by rwa [if_pos hin] at hsource)
    refine ⟨fun hin ↦ htrim (hcleaned hin).1, fun hin _ ↦ hnonempty (hcleaned hin).2,
      fun hin ↦ ?_, fun hin ↦ ?_, fun hin ↦ absurd hin hphone⟩
    · rw [casing, if_pos hin]
      exact h.lower_lower source
    · have hnot : name ∉ t.lowerColumns := fun hlower ↦ not_mem_upperColumns t name hlower hin
      rw [casing, if_neg hnot, if_pos hin]
      exact h.upper_upper source

/-- **Cleaning a column again** makes an empty phone number null and changes nothing else. -/
theorem cleanedColumn_twice_iff (h : case.Lawful) :
    cleanedColumn case t name (cleanedColumn case t name column) =
        cleanedColumn case t name column ↔
      (name ∈ t.phoneColumns → cleanedColumn case t name column ≠ some []) := by
  rcases hcolumn : cleanedColumn case t name column with - | text
  · refine iff_of_true ?_ fun _ ↦ (Option.some_ne_none []).symm
    by_cases hphone : name ∈ t.phoneColumns
    · rw [cleanedColumn_of_phone hphone]
      rfl
    · rw [cleanedColumn_of_not_phone hphone]
      split <;> rfl
  · have hclean := isCleanText_cleanedColumn h hcolumn
    by_cases hphone : name ∈ t.phoneColumns
    · obtain ⟨digits, hform, hdigits⟩ := hclean.phone hphone
      rw [cleanedColumn_of_phone hphone]
      rcases eq_or_ne text [] with rfl | hne
      · exact iff_of_false (fun heq ↦ by cases heq) fun hnot ↦ hnot hphone rfl
      · refine iff_of_true ?_ fun _ heq ↦ hne (Option.some.inj heq)
        rw [cleanedText_eq_self (trim_phone hform hdigits) hne,
          normalizedPhone_eq_self hform hdigits]
    · refine iff_of_true ?_ fun hin ↦ absurd hin hphone
      have hcase : casing case t name text = text := by
        rw [cleanedColumn_of_not_phone hphone] at hcolumn
        obtain ⟨source, -, rfl⟩ := Option.map_eq_some_iff.1 hcolumn
        exact (casing_spec h t name source).1
      have hcleaned : (if name ∈ t.cleanedColumns then cleanedText (some text) else some text) =
          some text := by
        split
        case isTrue hin =>
          exact cleanedText_eq_self (hclean.trimmed hin) (hclean.nonempty hin hphone)
        case isFalse => rfl
      rw [cleanedColumn_of_not_phone hphone, hcleaned, Option.map_some, hcase]

end Column

/-! ### Clean rows -/

/-- **A cleaned row** has clean columns. -/
theorem isClean_cleaning {case : CaseFunctions} (h : case.Lawful) (t : SilverTable)
    (p : SilverColumns t) : IsClean case t (cleaning case t p) := by
  intro c hc text htext
  rw [cleaning_eq, textColumns_mapText] at hc
  obtain ⟨source, -, rfl⟩ := List.mem_map.1 hc
  exact isCleanText_cleanedColumn h htext

/-- **Cleaning again** changes nothing exactly if no phone number is an empty text. -/
theorem cleaning_twice {case : CaseFunctions} (h : case.Lawful) (t : SilverTable)
    (p : SilverColumns t) :
    cleaning case t (cleaning case t p) = cleaning case t p ↔
      ∀ c ∈ t.textColumns (cleaning case t p), c.1 ∈ t.phoneColumns → c.2 ≠ some [] := by
  rw [cleaning_eq case t (cleaning case t p), mapText_eq_self_iff, cleaning_eq,
    textColumns_mapText, List.forall_mem_map, List.forall_mem_map]
  exact forall₂_congr fun c _ ↦ cleanedColumn_twice_iff h

/-! ### Runs of Silver steps -/

/-- Silver steps of any tables. -/
def silverRun (fns : SparkFunctions) (clean : Cleaning) (lake : SilverLake)
    (pieces : List ((t : SilverTable) × SilverPiece ℤ (SilverColumns t))) : Option SilverLake :=
  Runs.run (fun lake piece ↦ silverStep fns clean lake piece.1 piece.2) lake pieces

section Payloads

variable {fns : SparkFunctions} {clean : Cleaning} {P : (t : SilverTable) → SilverColumns t → Prop}

/-- What holds of the business columns of a table in its current rows, which have distinct keys, and
in its change history. -/
structure SilverLake.Payloads (lake : SilverLake) (t : SilverTable)
    (P : SilverColumns t → Prop) : Prop where
  distinct : ((lake.currentRows t).map fun row ↦ row.key).Nodup
  current : ∀ row ∈ lake.currentRows t, P row.payload
  history : ∀ row ∈ lake.history t, P row.payload

/-- An empty Silver has no rows. -/
theorem SilverLake.payloads_empty (t : SilverTable) (P : SilverColumns t → Prop) :
    SilverLake.empty.Payloads t P where
  distinct := List.nodup_nil
  current _ h := by cases h
  history _ h := by cases h

/-- A merged row has the business columns of the row it replaces or of one that is merged. -/
theorem payload_of_mergeSilverRow {K Q : Type} {isCdc : Bool} {held source : Option (SilverRow K Q)}
    {row : SilverRow K Q} (h : mergeSilverRow isCdc held source = some row) :
    (∃ t ∈ held, row.payload = t.payload) ∨ ∃ s ∈ source, row.payload = s.payload := by
  rcases held with - | t
  · rcases source with - | s
    · cases h
    · obtain ⟨-, heq⟩ := Option.ite_none_left_eq_some.1 h
      obtain rfl := Option.some.inj heq
      exact Or.inr ⟨s, rfl, rfl⟩
  · rcases source with - | s
    · obtain rfl := Option.some.inj h
      exact Or.inl ⟨t, rfl, rfl⟩
    · rcases lt_or_ge t.sequence s.sequence with hlt | hge
      · rw [mergeSilverRow_of_lt hlt] at h
        split at h
        · obtain rfl := Option.some.inj h
          exact Or.inl ⟨t, rfl, rfl⟩
        · obtain rfl := Option.some.inj h
          exact Or.inr ⟨s, rfl, rfl⟩
      · rw [mergeSilverRow_of_ge hge] at h
        obtain rfl := Option.some.inj h
        exact Or.inl ⟨t, rfl, rfl⟩

/-- What a Silver step does to the tables. -/
theorem silverStep_cases {lake lake' : SilverLake} {t₀ : SilverTable}
    {piece : SilverPiece ℤ (SilverColumns t₀)}
    (hstep : silverStep fns clean lake t₀ piece = some lake') :
    (∃ rows, mergePiece fns (clean t₀) (lake.currentRows t₀) piece = some rows ∧
      lake'.currentRows t₀ = rows ∧
      lake'.history t₀ = lake.history t₀ ++
        if t₀.hasChangeHistory then changeHistory fns t₀.name (clean t₀) piece.events else []) ∧
      ∀ t ≠ t₀, lake'.currentRows t = lake.currentRows t ∧ lake'.history t = lake.history t := by
  obtain ⟨rows, hmerge, rfl⟩ := Option.map_eq_some_iff.1 hstep
  refine ⟨⟨rows, hmerge, ?_, ?_⟩, fun t hne ↦ ⟨?_, ?_⟩⟩
  · show (((Function.update lake.tables t₀ _) t₀).getLast?.map _).getD [] = rows
    rw [Function.update_self, List.getLast?_concat]
    rfl
  · show ((if t₀.hasChangeHistory then _ else lake.histories) t₀).flatten = _
    split
    · rw [Function.update_self, List.flatten_concat]
      rfl
    · rw [List.append_nil]
      rfl
  · show (((Function.update lake.tables t₀ _) t).getLast?.map _).getD [] = _
    rw [Function.update_of_ne hne]
    rfl
  · show ((if t₀.hasChangeHistory then _ else lake.histories) t).flatten = _
    split
    · rw [Function.update_of_ne hne]
      rfl
    · rfl

/-- The step: a piece brings nothing in but its cleaned events. -/
theorem SilverLake.Payloads.step {lake lake' : SilverLake} {t₀ : SilverTable}
    {piece : SilverPiece ℤ (SilverColumns t₀)}
    (hpiece : ∀ e ∈ piece.events, P t₀ (clean t₀ e.payload))
    (h : ∀ t, lake.Payloads t (P t)) (hstep : silverStep fns clean lake t₀ piece = some lake')
    (t : SilverTable) : lake'.Payloads t (P t) := by
  obtain ⟨⟨rows, hmerge, hrows, hhistory⟩, hothers⟩ := silverStep_cases hstep
  rcases eq_or_ne t t₀ with rfl | hne
  · obtain ⟨rows', hmerge', hkeys, hlookup⟩ :=
      lookup_mergePiece fns (clean t) (h t).distinct piece
    obtain rfl := Option.some.inj (hmerge.symm.trans hmerge')
    refine ⟨hrows ▸ hkeys, fun row hrow ↦ ?_, fun row hrow ↦ ?_⟩
    · rw [hrows] at hrow
      have hfound := (MergeInto.lookup_eq_some_iff hkeys).2 ⟨hrow, rfl⟩
      rw [hlookup] at hfound
      rcases payload_of_mergeSilverRow hfound with ⟨old, hold, heq⟩ | ⟨new, hnew, heq⟩
      · rw [heq]
        exact (h t).current old (MergeInto.mem_of_lookup hold).1
      · have hin := (MergeInto.mem_of_lookup hnew).1
        rw [transformTable_eq_map] at hin
        obtain ⟨e, he, rfl⟩ := List.mem_map.1 hin
        rw [heq]
        exact hpiece e (Window.mem_of_mem_firstPerPartition _ _ he)
    · rw [hhistory] at hrow
      rcases List.mem_append.1 hrow with hrow | hrow
      · exact (h t).history row hrow
      · split at hrow
        · obtain ⟨e, he, rfl⟩ := List.mem_map.1 hrow
          exact hpiece e he
        · cases hrow
  · obtain ⟨hcurrent, hhistory⟩ := hothers t hne
    exact ⟨hcurrent ▸ (h t).distinct, hcurrent ▸ (h t).current, hhistory ▸ (h t).history⟩

/-- The run. -/
theorem SilverLake.payloads_of_run
    {pieces : List ((t : SilverTable) × SilverPiece ℤ (SilverColumns t))}
    (hpieces : ∀ piece ∈ pieces, ∀ e ∈ piece.2.events, P piece.1 (clean piece.1 e.payload))
    {lake lake' : SilverLake} (h : ∀ t, lake.Payloads t (P t))
    (hrun : silverRun fns clean lake pieces = some lake') (t : SilverTable) :
    lake'.Payloads t (P t) := by
  induction pieces generalizing lake with
  | nil => exact Option.some.inj hrun ▸ h t
  | cons piece rest ih =>
    obtain ⟨lake₁, hstep, hrest⟩ := Runs.run_cons_eq_some.1 hrun
    exact ih (fun p hp ↦ hpieces p (List.mem_cons_of_mem _ hp))
      (fun t ↦ Payloads.step (hpieces piece List.mem_cons_self) h hstep t) hrest

end Payloads

/-- The states of payments and shipments are null or not empty, as the source checks. -/
def StatesChecked (t : SilverTable) (p : SilverColumns t) : Prop :=
  ∀ c ∈ t.textColumns p, c.1 ∈ ["payment_status".toList, "shipment_status".toList] → c.2 ≠ some []

/-- They are only lowercased. -/
theorem statesChecked_cleaning {case : CaseFunctions} (h : case.Lawful) {t : SilverTable}
    {p : SilverColumns t} (hchecked : StatesChecked t p) : StatesChecked t (cleaning case t p) := by
  intro c hc hname heq
  rw [cleaning_eq, textColumns_mapText] at hc
  obtain ⟨source, hsource, rfl⟩ := List.mem_map.1 hc
  have hroles : source.1 ∉ t.phoneColumns ∧ source.1 ∉ t.cleanedColumns := by
    have hroles : ∀ name ∈ ["payment_status".toList, "shipment_status".toList],
        name ∉ t.phoneColumns ∧ name ∉ t.cleanedColumns := by
      cases t <;> decide
    exact hroles source.1 hname
  have heq : cleanedColumn case t source.1 source.2 = some [] := heq
  rw [cleanedColumn_of_not_phone hroles.1, if_neg hroles.2] at heq
  obtain ⟨text, htext, hnil⟩ := Option.map_eq_some_iff.1 heq
  have hne : text ≠ [] := fun hempty ↦ hchecked source hsource hname (hempty ▸ htext)
  exact (casing_spec h t source.1 text).2.1 hne hnil

/-- **Whatever reaches Silver is clean there**: after any Batch and CDC pieces of any tables every
text column, in the current rows and in the change histories, is null or as its steps leave it; and
the columns that are hashed in pairs are null or not empty, if the states are in Bronze. -/
theorem clean_of_run {fns : SparkFunctions} {case : CaseFunctions} (h : case.Lawful)
    {pieces : List ((t : SilverTable) × SilverPiece ℤ (SilverColumns t))} {lake : SilverLake}
    (hrun : silverRun fns (cleaning case) .empty pieces = some lake) :
    (∀ t, (∀ row ∈ lake.currentRows t, IsClean case t row.payload) ∧
      ∀ row ∈ lake.history t, IsClean case t row.payload) ∧
    ((∀ piece ∈ pieces, ∀ e ∈ piece.2.events, StatesChecked piece.1 e.payload) →
      lake.TextsCleaned) := by
  have hclean := SilverLake.payloads_of_run (P := IsClean case)
    (fun piece _ e _ ↦ isClean_cleaning h piece.1 e.payload)
    (fun t ↦ SilverLake.payloads_empty t _) hrun
  refine ⟨fun t ↦ ⟨(hclean t).current, (hclean t).history⟩, fun hchecked ↦ ?_⟩
  have hstates := SilverLake.payloads_of_run (P := StatesChecked)
    (fun piece hpiece e he ↦ statesChecked_cleaning h (hchecked piece hpiece e he))
    (fun t ↦ SilverLake.payloads_empty t _) hrun
  -- of each table: the first column is trimmed, the second one is a state
  have hrow : ∀ {t : SilverTable} {row : BusinessRow ℤ (SilverColumns t)}, row ∈ lake.rows t →
      IsClean case t row.payload ∧ StatesChecked t row.payload := by
    intro t row hrow
    obtain ⟨silver, hsilver, rfl⟩ := List.mem_map.1 hrow
    have hin := (List.mem_filter.1 hsilver).1
    exact ⟨(hclean t).current silver hin, (hstates t).current silver hin⟩
  refine ⟨fun p hp ↦ ?_, fun s hs ↦ ?_⟩
  · obtain ⟨hpClean, hpStates⟩ := hrow (t := .payments) hp
    have htrimmed : "payment_method".toList ∈ SilverTable.payments.cleanedColumns ∧
        "payment_method".toList ∉ SilverTable.payments.phoneColumns := by
      decide
    refine ⟨fun heq ↦ ?_, hpStates ("payment_status".toList, _) ?_ (by simp)⟩
    · exact (hpClean ("payment_method".toList, p.payload.paymentMethod)
        (by simp [SilverTable.textColumns]) [] heq).nonempty htrimmed.1 htrimmed.2 rfl
    · simp [SilverTable.textColumns]
  · obtain ⟨hsClean, hsStates⟩ := hrow (t := .shipments) hs
    have htrimmed : "carrier".toList ∈ SilverTable.shipments.cleanedColumns ∧
        "carrier".toList ∉ SilverTable.shipments.phoneColumns := by
      decide
    refine ⟨fun heq ↦ ?_, hsStates ("shipment_status".toList, _) ?_ (by simp)⟩
    · exact (hsClean ("carrier".toList, s.payload.carrier)
        (by simp [SilverTable.textColumns]) [] heq).nonempty htrimmed.1 htrimmed.2 rfl
    · simp [SilverTable.textColumns]

/-! ### Letters of ASCII -/

/-- The mapping of the letters of one case to those of the other. -/
def asciiCase (source target : Char) (c : Char) : Char :=
  if source.toNat ≤ c.toNat ∧ c.toNat < source.toNat + 26 then
    Char.ofNat (target.toNat + (c.toNat - source.toNat))
  else c

/-- Characters of ASCII have their numbers. -/
theorem toNat_ofNat_of_lt {n : ℕ} (h : n < 128) : (Char.ofNat n).toNat = n := by
  have hvalid : n.isValidChar := Or.inl (by omega)
  rw [Char.ofNat, dif_pos hvalid]
  rfl

/-- The letters and their images are apart, and no space is among the images. -/
theorem asciiCase_spec (source target : Char)
    (hletters : (source, target) ∈ [('A', 'a'), ('a', 'A')]) (c : Char) :
    asciiCase source target (asciiCase source target c) = asciiCase source target c ∧
      (asciiCase source target c = ' ' → c = ' ') := by
  have hbounds : 65 ≤ source.toNat ∧ 65 ≤ target.toNat ∧ source.toNat + 26 ≤ 128 ∧
      target.toNat + 26 ≤ 128 ∧
      (source.toNat + 26 ≤ target.toNat ∨ target.toNat + 26 ≤ source.toNat) := by
    rcases List.mem_pair.1 hletters with h | h <;> cases h <;> decide
  obtain ⟨hsource, htarget, hsource', htarget', hapart⟩ := hbounds
  by_cases hc : source.toNat ≤ c.toNat ∧ c.toNat < source.toNat + 26
  · have himage : (asciiCase source target c).toNat = target.toNat + (c.toNat - source.toNat) := by
      rw [asciiCase, if_pos hc]
      exact toNat_ofNat_of_lt (by omega)
    refine ⟨?_, fun hspace ↦ ?_⟩
    · rw [asciiCase, if_neg (by rw [himage]; omega)]
    · rw [hspace] at himage
      have : (' ' : Char).toNat = 32 := rfl
      omega
  · have hsame : asciiCase source target c = c := if_neg hc
    rw [hsame]
    exact ⟨hsame, id⟩

/-- What maps no letter to a space keeps the ends of a text. -/
theorem trim_map {f : Char → Char} (hf : ∀ c, f c = ' ' → c = ' ') {text : Text}
    (h : trim text = text) : trim (text.map f) = text.map f := by
  obtain ⟨hhead, hlast⟩ := ends_of_trim text
  rw [h] at hhead hlast
  refine trim_eq_self_of_ends (fun c hc ↦ ?_) fun c hc ↦ ?_
  · rw [List.head?_map] at hc
    obtain ⟨d, hd, rfl⟩ := Option.map_eq_some_iff.1 hc
    exact mt (hf d) (hhead d hd)
  · rw [List.getLast?_map] at hc
    obtain ⟨d, hd, rfl⟩ := Option.map_eq_some_iff.1 hc
    exact mt (hf d) (hlast d hd)

/-- The case mappings on texts of ASCII. -/
def CaseFunctions.ascii : CaseFunctions where
  lower := List.map (asciiCase 'A' 'a')
  upper := List.map (asciiCase 'a' 'A')

/-- The case mappings on texts of ASCII keep what is asked of them. -/
theorem CaseFunctions.lawful_ascii : CaseFunctions.ascii.Lawful := by
  have hlower := asciiCase_spec 'A' 'a' (by decide)
  have hupper := asciiCase_spec 'a' 'A' (by decide)
  have htwice : ∀ {f : Char → Char}, (∀ c, f (f c) = f c) → ∀ text : Text,
      (text.map f).map f = text.map f := fun hf text ↦ by
    rw [List.map_map]
    exact List.map_congr_left fun c _ ↦ hf c
  exact
    { lower_lower := htwice fun c ↦ (hlower c).1
      upper_upper := htwice fun c ↦ (hupper c).1
      lower_ne_nil := fun _ ↦ mt List.map_eq_nil_iff.1
      upper_ne_nil := fun _ ↦ mt List.map_eq_nil_iff.1
      trim_lower := fun _ ↦ trim_map fun c ↦ (hlower c).2
      trim_upper := fun _ ↦ trim_map fun c ↦ (hupper c).2 }

/-! ### A phone number without a digit -/

/-- A user with spaces around the mail address and a phone number that is none. -/
def untidyUser : BronzeEvent ℤ UserColumns where
  key := 7
  createdAt := 10
  payload :=
    { publicUserId := some "U7".toList
      username := some "  ".toList
      email := some " Ann@Example.com ".toList
      firstName := some "Ann".toList
      lastName := none
      phoneNumber := some "n/a".toList
      status := some "ACTIVE".toList
      updatedAt := some 10
      lastLogin := none }
  operation := .insert
  eventOccurredAt := some 10
  eventId := .number 1
  batchId := ['b']
  isStreamingCdc := false
  sourceLsn := none
  kafkaPartition := none
  kafkaOffset := none

/-- The phone number is an empty text, so cleaning again would change the row. -/
theorem cleaning_twice_untidy :
    cleaning .ascii .appUsers (cleaning .ascii .appUsers untidyUser.payload) =
        cleaning .ascii .appUsers untidyUser.payload ↔
      ∀ c ∈ SilverTable.appUsers.textColumns (cleaning .ascii .appUsers untidyUser.payload),
        c.1 ∈ SilverTable.appUsers.phoneColumns → c.2 ≠ some [] :=
  cleaning_twice CaseFunctions.lawful_ascii .appUsers untidyUser.payload

/-- The user in Silver. -/
example : (cleaning .ascii .appUsers untidyUser.payload).email = some "ann@example.com".toList ∧
    (cleaning .ascii .appUsers untidyUser.payload).username = none ∧
    (cleaning .ascii .appUsers untidyUser.payload).phoneNumber = some [] := by
  decide +kernel

/-- Trimmed, lowercased, with a null for the blank user name. -/
theorem clean_of_run_untidy : ∃ lake,
    silverRun .plain (cleaning .ascii) .empty [⟨.appUsers, .batch [untidyUser]⟩] = some lake ∧
      (∀ t, (∀ row ∈ lake.currentRows t, IsClean .ascii t row.payload) ∧
        ∀ row ∈ lake.history t, IsClean .ascii t row.payload) ∧
      ((∀ piece ∈ ([⟨.appUsers, .batch [untidyUser]⟩] :
          List ((t : SilverTable) × SilverPiece ℤ (SilverColumns t))),
        ∀ e ∈ piece.2.events, StatesChecked piece.1 e.payload) → lake.TextsCleaned) := by
  have hrun : (silverRun .plain (cleaning .ascii) .empty
      [⟨.appUsers, .batch [untidyUser]⟩]).isSome = true := by
    decide +kernel
  obtain ⟨lake, hlake⟩ := Option.isSome_iff_exists.1 hrun
  exact ⟨lake, hlake, clean_of_run CaseFunctions.lawful_ascii hlake⟩

end LakehousePipeline
