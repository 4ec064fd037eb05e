import LakehousePipeline.Library.ThreeValued
import LakehousePipeline.Library.Window
import LakehousePipeline.Streaming.SourceOrder

/-!
# The CDC decoder

What happens to a Kafka message before Silver sees it. `normalize_debezium_events` reads the
envelope and judges it, `prepare_raw_cdc_events` reads the row image and collects what is wrong with
it, and `materialize` sends what has an error to quarantine and the rest to the typed table of its
source table.

The checks are conditions over columns that may be null, and a check is silent where its condition
is null. No row slips through: the first check makes a null verdict an error, and with a verdict the
later conditions are not null (`decodeError_eq_none`). So the rows are divided between quarantine
and the typed tables, and what a typed table gets has the types of its contract
(`decoder_partitions`).

## Conditions that may be null

Spark evaluates a check over null columns to null, and a null condition collects no error. `Truth`
has the three values, and each check is written as in the source. Two points keep null from letting
a row through: `is_valid` is compared with null explicitly, and a valid verdict means that the
operation and the source table are known (`IsNormalized.of_isValid`). From there on the checks of
the table are about values that are there.

## From the checks to the types

`PayloadFits` is what the checks of a table amount to: the primary key is there, a delete of a child
of an order names the order, no field is unexpected, and each field that is there has the type of
its column. `MeetsContract` is what a typed row has to satisfy. They differ in what they look at,
raw texts on one side and typed values on the other, and in the time zone: the check reads
timestamps in UTC and the typed table in the zone of its settings, which makes no difference to
whether they can be read (`isSome_typedPayloadValue`).

The contracts are computed from the lists of column names in the source, so a column that is added
there needs no new proof here.
-/

namespace LakehousePipeline

open ThreeValued

/-! ### Contracts -/

/-- The types of payload fields. -/
inductive CdcDataType
  | string
  | integer
  | boolean
  | timestamp
  | decimal (precision scale : ℕ)
  deriving DecidableEq, Repr

/-- A value of a payload field. Decimals are in units of their last digit. -/
inductive CdcValue
  | string (text : Text)
  | integer (n : ℤ)
  | boolean (b : Bool)
  | timestamp (time : Timestamp)
  | decimal (unscaled : ℤ)
  deriving DecidableEq

/-- A field of `payload_schema`. -/
structure CdcField where
  name : Text
  dataType : CdcDataType
  deriving DecidableEq

/-- `columns` of `SILVER_TABLES`. -/
def SilverTable.silverColumnNames (t : SilverTable) : List Text :=
  List.map String.toList <| match t with
  | .appUsers => ["user_id", "public_user_id", "username", "email", "first_name", "last_name",
      "phone_number", "status", "created_at", "updated_at", "last_login"]
  | .userAddresses => ["address_id", "user_id", "address_type", "recipient_name", "phone_number",
      "street", "ward", "district", "city", "state", "postal_code", "country", "created_at",
      "updated_at"]
  | .shops => ["shop_id", "public_shop_id", "shop_name", "shop_slug", "status", "created_at",
      "updated_at"]
  | .categories => ["category_id", "parent_category_id", "category_name", "slug", "is_active",
      "created_at", "updated_at"]
  | .products => ["product_id", "public_product_id", "shop_id", "category_id", "product_sku",
      "product_slug", "product_name", "brand", "attributes_json", "images_json", "status",
      "is_featured", "created_at", "updated_at"]
  | .productVariants => ["product_variant_id", "public_variant_id", "product_id", "variant_sku",
      "variant_name", "options_json", "unit_price", "compare_at_price", "currency",
      "stock_quantity", "reserved_quantity", "weight_kg", "images_json", "status", "is_default",
      "created_at", "updated_at"]
  | .vouchers => ["voucher_id", "voucher_code", "voucher_name", "shop_id", "discount_type",
      "discount_value", "max_discount_amount", "minimum_order_amount", "scope_json", "starts_at",
      "ends_at", "is_active", "created_at", "updated_at"]
  | .orders => ["order_id", "public_order_id", "customer_id", "order_number", "order_status",
      "payment_status", "shipping_address_id", "billing_address_id", "shipping_address_snapshot",
      "billing_address_snapshot", "subtotal_amount", "shipping_amount", "tax_amount",
      "discount_amount", "total_amount", "currency", "created_at", "updated_at"]
  | .orderItems => ["order_item_id", "order_id", "shop_id", "product_id", "product_variant_id",
      "product_name_snapshot", "product_sku_snapshot", "variant_name_snapshot",
      "variant_sku_snapshot", "variant_options_snapshot", "quantity", "unit_price", "currency",
      "tax_amount", "discount_amount", "item_subtotal", "item_total", "created_at", "updated_at"]
  | .orderVouchers => ["order_voucher_id", "order_id", "voucher_id", "discount_amount",
      "created_at", "updated_at"]
  | .payments => ["payment_id", "public_payment_id", "order_id", "payment_method",
      "payment_status", "amount", "currency", "paid_at", "created_at", "updated_at"]
  | .shipments => ["shipment_id", "public_shipment_id", "order_id", "shipment_status", "carrier",
      "tracking_number", "shipped_at", "delivered_at", "created_at", "updated_at"]

/-- `_BRONZE_ONLY_COLUMNS`. -/
def SilverTable.bronzeOnlyColumns (t : SilverTable) : List Text :=
  List.map String.toList <| match t with
  | .appUsers | .orderItems | .orderVouchers => []
  | .userAddresses => ["is_default_shipping", "is_default_billing"]
  | .shops => ["description", "logo_url"]
  | .categories => ["description"]
  | .products => ["short_description", "description"]
  | .productVariants => ["dimensions_json"]
  | .vouchers => ["description", "usage_limit", "used_count"]
  | .orders => ["customer_note"]
  | .payments => ["transaction_reference"]
  | .shipments => ["shipping_address_snapshot"]

/-- `primary_keys` of `BRONZE_TABLES`. -/
def SilverTable.primaryKeys (t : SilverTable) : List Text :=
  List.map String.toList <| match t with
  | .appUsers => ["user_id"]
  | .userAddresses => ["address_id"]
  | .shops => ["shop_id"]
  | .categories => ["category_id"]
  | .products => ["product_id"]
  | .productVariants => ["product_variant_id"]
  | .vouchers => ["voucher_id"]
  | .orders => ["order_id"]
  | .orderItems => ["order_item_id"]
  | .orderVouchers => ["order_voucher_id"]
  | .payments => ["payment_id"]
  | .shipments => ["shipment_id"]

/-- `_DECIMAL_COLUMNS`. -/
def decimalColumns : List Text :=
  ["unit_price", "compare_at_price", "discount_value", "max_discount_amount",
    "minimum_order_amount", "subtotal_amount", "shipping_amount", "tax_amount", "discount_amount",
    "total_amount", "item_subtotal", "item_total", "amount"].map String.toList

/-- `_INTEGER_COLUMNS`. -/
def integerColumns : List Text :=
  ["quantity", "stock_quantity", "reserved_quantity", "usage_limit", "used_count"].map String.toList

/-- `_TIMESTAMP_COLUMNS`. -/
def timestampColumns : List Text :=
  ["created_at", "updated_at", "last_login", "starts_at", "ends_at", "paid_at", "shipped_at",
    "delivered_at"].map String.toList

/-- `_source_data_type`. -/
def sourceDataType (column : Text) : CdcDataType :=
  if column = "weight_kg".toList then .decimal 8 3
  else if column ∈ decimalColumns then .decimal 12 2
  else if column ∈ integerColumns ∨
      "_id".toList.isSuffixOf column ∧ ¬"public_".toList.isPrefixOf column then .integer
  else if column ∈ timestampColumns then .timestamp
  else if "is_".toList.isPrefixOf column then .boolean
  else .string

/-- `columns` of `TypedCdcTableContract`. -/
def SilverTable.payloadColumns (t : SilverTable) : List Text :=
  t.silverColumnNames ++ t.bronzeOnlyColumns

/-- `_payload_schema`. -/
def SilverTable.payloadSchema (t : SilverTable) : List CdcField :=
  t.payloadColumns.map fun column ↦ ⟨column, sourceDataType column⟩

/-- `_DELETE_CONTEXT_COLUMNS`. -/
def SilverTable.deleteContextColumns : SilverTable → List Text
  | .orderItems | .orderVouchers | .payments | .shipments => ["order_id".toList]
  | _ => []

/-! ### Normalization -/

/-- A Kafka message, with its value as text. -/
structure KafkaMessage where
  topic : Text
  partition : ℤ
  offset : ℤ
  value : Option Text
  deriving DecidableEq

/-- How Spark reads JSON and parses the texts in it; null is what cannot be read. -/
structure CdcReaders where
  /-- `from_json` with the envelope schema. -/
  envelope : Text → Option DebeziumEnvelope
  /-- `from_json` with `MAP<STRING,STRING>`. -/
  payloadMap : Text → Option PayloadMap
  /-- `cast(_ as bigint)`. -/
  castLong : Text → Option ℤ
  /-- `cast(_ as int)`. -/
  castInteger : Text → Option ℤ
  /-- `cast(_ as boolean)`. -/
  castBoolean : Text → Option Bool
  /-- `cast(_ as decimal(precision, scale))`. -/
  castDecimal : ℕ → ℕ → Text → Option ℤ
  /-- `to_timestamp`. -/
  toTimestamp : Text → Option Timestamp
  /-- `to_utc_timestamp` in a valid time zone. -/
  toUtcTimestamp : Text → Timestamp → Timestamp

/-- **A text that is an `int` is the same `bigint`.** -/
def CdcReaders.IntegersAgree (readers : CdcReaders) : Prop :=
  ∀ raw n, readers.castInteger raw = some n → readers.castLong raw = some n

/-- A row of raw CDC Bronze. -/
structure RawCdcRow where
  /-- The columns that are decoded from the envelope. -/
  event : RawCdcEvent
  /-- `value_json`. -/
  valueJson : Option Text
  /-- `is_valid`. -/
  isValid : Truth
  /-- `parse_error`. -/
  parseError : Option Text
  deriving DecidableEq

/-- `VALID_DEBEZIUM_OPERATIONS`. -/
def validDebeziumOperations : List Text :=
  [['r'], ['c'], ['u'], ['d']]

section Decoder

variable (fns : SparkFunctions) (readers : CdcReaders)

/-- `normalize_debezium_events` with a `source_id`, row by row. -/
def normalizeDebeziumEvents (sourceId : Option Text) (ingestedAt : Timestamp)
    (message : KafkaMessage) : RawCdcRow :=
  let envelope := message.value.bind readers.envelope
  let event := normalizeDebeziumEvent fns ingestedAt
    ⟨message.topic, message.partition, message.offset, envelope⟩
  let validOperation := isIn event.operation validDebeziumOperations
  let hasSource := event.transport.sourceSchema.isSome && event.transport.sourceTable.isSome
  { event := { event with
      transport := { event.transport with
        transportEventId := some (concatWs [':'] (sourceId.toList.map some ++
          [some message.topic, some (fns.castInt message.partition),
            some (fns.castInt message.offset)])) } }
    valueJson := message.value
    isValid := ((Truth.and (some message.value.isSome) (some envelope.isSome)).and
      validOperation).and (some hasSource)
    parseError := caseWhen
      [(some message.value.isNone, "tombstone_or_null_value".toList),
        (some envelope.isNone, "invalid_json".toList),
        (validOperation.not, "unsupported_operation".toList),
        (some !hasSource, "missing_source_metadata".toList)] }

/-! ### Decoding -/

/-- `element_at(_payload_map, column)`. -/
def PayloadMap.elementAt (payload : PayloadMap) (column : Text) : Option Text :=
  (payload.lookup column).join

/-- `rlike(r"^-?[0-9]+$")`; the end may be before a line terminator. -/
def isMicroseconds (raw : Text) : Bool :=
  let line := match raw.reverse with
    | '\n' :: '\r' :: rest => rest.reverse
    | c :: rest => if c.toNat ∈ [0x0A, 0x0D, 0x85, 0x2028, 0x2029] then rest.reverse else raw
    | [] => raw
  let digits := if line.head? = some '-' then line.tail else line
  !digits.isEmpty && digits.all Char.isDigit

/-- `_typed_payload_value`. -/
def typedPayloadValue (column : Text) (dataType : CdcDataType) (timezone : Text)
    (payload : PayloadMap) : Option CdcValue :=
  let raw := payload.elementAt column
  match dataType with
  | .timestamp =>
    if raw.map isMicroseconds = some true then
      (raw.bind readers.castLong).map fun micros ↦
        .timestamp (readers.toUtcTimestamp timezone micros)
    else (raw.bind readers.toTimestamp).map .timestamp
  | .decimal precision scale => (raw.bind (readers.castDecimal precision scale)).map .decimal
  | .integer => (raw.bind readers.castInteger).map .integer
  | .boolean => (raw.bind readers.castBoolean).map .boolean
  | .string => raw.map .string

/-- `_missing_payload_field`. -/
def missingPayloadField (columns : List Text) (payload : PayloadMap) : Truth :=
  Truth.any (columns.flatMap fun column ↦
    let value := (payload.elementAt column).bind readers.castLong
    [some value.isNone, value.map fun n ↦ decide (n ≤ 0)])

/-- `array_sort(array_except(map_keys(_payload_map), allowed))`. -/
def unexpectedFields (payload : PayloadMap) (allowed : List Text) : List Text :=
  (((payload.map Prod.fst).filter fun column ↦ column ∉ allowed).dedup).insertionSort (· ≤ ·)

/-- The errors `_decode_error` collects for a table. -/
def tableErrors (t : SilverTable) (sourceTable operation : Option Text) (payload : PayloadMap) :
    List (Option Text) :=
  let scope : Truth := sourceTable.map fun name ↦ decide (name = t.name)
  let missingKey := Truth.any (t.primaryKeys.map fun key ↦
    some (typedPayloadValue readers key (sourceDataType key) "UTC".toList payload).isNone)
  let isDelete : Truth := operation.map fun op ↦ decide (op = ['d'])
  let unexpected := unexpectedFields payload t.payloadColumns
  [caseWhen [(scope.and missingKey, "missing_or_invalid_primary_key".toList)],
    caseWhen [
      ((scope.and isDelete).and (missingPayloadField readers t.deleteContextColumns payload),
      "incomplete_delete_before_image".toList)],
    caseWhen [(scope.and (some (decide (0 < unexpected.length))),
      "unexpected_payload_fields:".toList ++ [','].intercalate unexpected)]] ++
  t.payloadSchema.map fun field ↦
    let castFailed := Truth.and (some (payload.elementAt field.name).isSome)
      (some (typedPayloadValue readers field.name field.dataType "UTC".toList payload).isNone)
    caseWhen [(scope.and castFailed, "invalid_field_type:".toList ++ field.name)]

/-- `_decode_error`. A null payload has no elements, so its elements are those of an empty one. -/
def decodeError (row : RawCdcRow) (payloadMap : Option PayloadMap) : Option Text :=
  coalesce ([caseWhen [(Truth.not (some (row.isValid.getD false)),
        "raw:".toList ++ row.parseError.getD "invalid_event".toList)],
      caseWhen [(some row.event.transport.transportEventId.isNone,
        "missing_transport_event_id".toList)],
      caseWhen [((isIn row.event.transport.sourceTable (silverTables.map SilverTable.name)).not,
        "unknown_source_table".toList)],
      caseWhen [(some payloadMap.isNone, "missing_or_invalid_payload".toList)]] ++
    silverTables.flatMap fun t ↦
      tableErrors readers t row.event.transport.sourceTable row.event.operation
        (payloadMap.getD []))

/-- `prepare_raw_cdc_events`, row by row: the row image is `before` for deletes, else `after`. -/
def prepareRawCdcEvents (row : RawCdcRow) : PreparedEvent :=
  let payloadJson := row.valueJson.bind fun json ↦ fns.getJsonObject json
    (if row.event.operation = some ['d'] then "before".toList else "after".toList)
  let payloadMap := payloadJson.bind readers.payloadMap
  { transport := row.event.transport
    operation := row.event.operation
    payload := payloadMap.getD []
    decodeError := decodeError readers row payloadMap }

/-- The contract of a table. `to_json` renders its columns. -/
def typedCdcContract (recordJson : List (Text × Option CdcValue) → Text) (t : SilverTable) :
    TypedCdcContract (List (Text × Option CdcValue)) where
  typedPayload timezone payload := t.payloadSchema.map fun field ↦
    (field.name, typedPayloadValue readers field.name field.dataType timezone payload)
  recordJson := recordJson

end Decoder

/-! ### What is accepted -/

section Accepted

variable {fns : SparkFunctions} {readers : CdcReaders} {t : SilverTable} {payload : PayloadMap}
  {operation sourceTable : Option Text} {row : RawCdcRow}

/-- The payload of an operation meets the contract of a table. -/
structure PayloadFits (readers : CdcReaders) (t : SilverTable) (operation : Option Text)
    (payload : PayloadMap) : Prop where
  /-- The primary key is there. -/
  primaryKeys : ∀ key ∈ t.primaryKeys,
    (typedPayloadValue readers key (sourceDataType key) "UTC".toList payload).isSome = true
  /-- A delete names its order. -/
  deleteContext : operation = some ['d'] → ∀ column ∈ t.deleteContextColumns,
    ∃ n, (payload.elementAt column).bind readers.castLong = some n ∧ 0 < n
  /-- There are no other fields. -/
  columns : ∀ column ∈ payload.map Prod.fst, column ∈ t.payloadColumns
  /-- Every field that is there has the type it should have. -/
  types : ∀ field ∈ t.payloadSchema, (payload.elementAt field.name).isSome = true →
    (typedPayloadValue readers field.name field.dataType "UTC".toList payload).isSome = true

/-- A comparison is true of the value itself only. -/
theorem equals_eq_true {a : Option Text} {name : Text} :
    (a.map fun n ↦ decide (n = name) : Truth) = some true ↔ a = some name := by
  rcases a with - | n
  · exact iff_of_false nofun nofun
  · simp

/-- The delete context is there exactly if the condition that it is not is not true. -/
theorem missingPayloadField_ne_true {columns : List Text} :
    missingPayloadField readers columns payload ≠ some true ↔
      ∀ column ∈ columns,
        ∃ n, (payload.elementAt column).bind readers.castLong = some n ∧ 0 < n := by
  rw [missingPayloadField, ne_eq, any_eq_true]
  simp only [List.mem_flatMap, not_exists, not_and]
  refine ⟨fun h column hcolumn ↦ ?_, fun h a ⟨column, hcolumn, ha⟩ ↦ ?_⟩
  · rcases hvalue : (payload.elementAt column).bind readers.castLong with - | n
    · refine absurd rfl (h (some true) ⟨column, hcolumn, ?_⟩)
      rw [hvalue]
      exact List.mem_cons_self
    · refine ⟨n, rfl, lt_of_not_ge fun hle ↦ ?_⟩
      refine absurd rfl (h (some true) ⟨column, hcolumn, ?_⟩)
      rw [hvalue, Option.map_some, decide_eq_true hle]
      exact List.mem_cons_of_mem _ List.mem_cons_self
  · obtain ⟨n, hvalue, hpos⟩ := h column hcolumn
    rw [hvalue, Option.map_some, decide_eq_false (not_le.2 hpos)] at ha
    rcases List.mem_pair.1 ha with rfl | rfl <;> simp

/-- There are none if all fields are allowed. -/
theorem unexpectedFields_eq_nil {allowed : List Text} :
    unexpectedFields payload allowed = [] ↔ ∀ column ∈ payload.map Prod.fst, column ∈ allowed := by
  rw [unexpectedFields, ← List.length_eq_zero_iff, List.length_insertionSort,
    List.length_eq_zero_iff, List.dedup_eq_nil, List.filter_eq_nil_iff]
  simp

/-- **The checks of a table accept what meets its contract**, and what is of another table. -/
theorem tableErrors_eq_none :
    (∀ e ∈ tableErrors readers t sourceTable operation payload, e = none) ↔
      (sourceTable = some t.name → PayloadFits readers t operation payload) := by
  have hkeys : Truth.any (t.primaryKeys.map fun key ↦ some (typedPayloadValue readers key
      (sourceDataType key) "UTC".toList payload).isNone) ≠ some true ↔
      ∀ key ∈ t.primaryKeys,
        (typedPayloadValue readers key (sourceDataType key) "UTC".toList payload).isSome =
          true := by
    rw [ne_eq, any_eq_true]
    simp [Option.isSome_iff_ne_none]
  have hcolumns : ¬0 < (unexpectedFields payload t.payloadColumns).length ↔
      ∀ column ∈ payload.map Prod.fst, column ∈ t.payloadColumns := by
    rw [← unexpectedFields_eq_nil, ← List.length_eq_zero_iff]
    omega
  -- a field the payload lacks is null and typed as such: only those it has can fail
  have htypes : (∀ field ∈ t.payloadSchema, ¬((some (payload.elementAt field.name).isSome :
        Truth) = some true ∧ (some (typedPayloadValue readers field.name field.dataType
          "UTC".toList payload).isNone : Truth) = some true)) ↔
      ∀ field ∈ t.payloadSchema, (payload.elementAt field.name).isSome = true →
        (typedPayloadValue readers field.name field.dataType "UTC".toList payload).isSome =
          true := by
    refine forall₂_congr fun field _ ↦ ?_
    simp [Option.isSome_iff_ne_none]
  simp only [tableErrors, List.forall_mem_append, List.forall_mem_cons, List.forall_mem_map,
    caseWhen_singleton_eq_none, ne_eq, and_eq_true, equals_eq_true, List.not_mem_nil]
  constructor
  · rintro ⟨⟨hkey, hdelete, hunexpected, -⟩, hfields⟩ hscope
    exact
      { primaryKeys := hkeys.1 fun hmissing ↦ hkey ⟨hscope, hmissing⟩
        deleteContext := fun hop ↦ missingPayloadField_ne_true.1 fun hmissing ↦
          hdelete ⟨⟨hscope, hop⟩, hmissing⟩
        columns := hcolumns.1 fun hpos ↦ hunexpected ⟨hscope, congrArg some (decide_eq_true hpos)⟩
        types := htypes.1 fun field hfield hfailed ↦ hfields field hfield ⟨hscope, hfailed⟩ }
  · intro h
    refine ⟨⟨?_, ?_, ?_, fun _ hfalse ↦ hfalse.elim⟩, ?_⟩
    · rintro ⟨hscope, hmissing⟩
      exact hkeys.2 (h hscope).primaryKeys hmissing
    · rintro ⟨⟨hscope, hop⟩, hmissing⟩
      exact missingPayloadField_ne_true.2 ((h hscope).deleteContext hop) hmissing
    · rintro ⟨hscope, hpos⟩
      exact hcolumns.2 (h hscope).columns (of_decide_eq_true (Option.some.inj hpos))
    · rintro field hfield ⟨hscope, hfailed⟩
      exact htypes.2 (h hscope).types field hfield hfailed

/-- **When a row has no error.** -/
theorem decodeError_eq_none {payloadMap : Option PayloadMap} :
    decodeError readers row payloadMap = none ↔
      row.isValid = some true ∧ row.event.transport.transportEventId.isSome = true ∧
        isIn row.event.transport.sourceTable (silverTables.map SilverTable.name) ≠ some false ∧
        payloadMap.isSome = true ∧ ∀ t, row.event.transport.sourceTable = some t.name →
          PayloadFits readers t row.event.operation (payloadMap.getD []) := by
  have hvalid : row.isValid.getD false ≠ false ↔ row.isValid = some true := by
    rcases row.isValid with - | - | - <;> decide
  have htables : (∀ e ∈ silverTables.flatMap fun t ↦ tableErrors readers t
        row.event.transport.sourceTable row.event.operation (payloadMap.getD []), e = none) ↔
      ∀ t, row.event.transport.sourceTable = some t.name →
        PayloadFits readers t row.event.operation (payloadMap.getD []) := by
    rw [List.forall_mem_flatMap]
    exact ⟨fun h t ↦ tableErrors_eq_none.1 (h t (mem_silverTables t)),
      fun h t _ ↦ tableErrors_eq_none.2 (h t)⟩
  rw [decodeError, coalesce_eq_none, List.forall_mem_append, htables, ← hvalid]
  simp [Option.isSome_iff_ne_none, and_assoc]

/-! ### What normalization produces -/

variable (fns readers) in
/-- The row of some message. -/
def IsNormalized (row : RawCdcRow) : Prop :=
  ∃ sourceId ingestedAt message,
    row = normalizeDebeziumEvents fns readers sourceId ingestedAt message

/-- A valid operation is an insert, an update or a delete. -/
theorem decodeOperation_of_valid : ∀ op ∈ validDebeziumOperations,
    decodeOperation (some op) ∈ [some .insert, some .update, some .delete] := by
  decide

/-- A valid row has an operation and a source table. -/
theorem IsNormalized.of_isValid (h : IsNormalized fns readers row)
    (hvalid : row.isValid = some true) :
    (∃ op ∈ validDebeziumOperations, row.event.operation = some op) ∧
      row.event.transport.sourceTable.isSome = true := by
  obtain ⟨sourceId, ingestedAt, message, rfl⟩ := h
  obtain ⟨hrest, hsource⟩ := and_eq_true.1 hvalid
  obtain ⟨-, hoperation⟩ := and_eq_true.1 hrest
  exact ⟨isIn_eq_true.1 hoperation, (Bool.and_eq_true_iff.1 (Option.some.inj hsource)).2⟩

/-- **A row without an error is of one table**, and its payload meets the contract. -/
theorem IsNormalized.exists_table (h : IsNormalized fns readers row)
    (hnone : (prepareRawCdcEvents fns readers row).decodeError = none) :
    ∃ t : SilverTable, row.event.transport.sourceTable = some t.name := by
  obtain ⟨hvalid, -, hknown, -, -⟩ := decodeError_eq_none.1 hnone
  obtain ⟨name, hname⟩ := Option.isSome_iff_exists.1 (h.of_isValid hvalid).2
  by_contra hno
  refine hknown (isIn_eq_false.2 ⟨name, hname, fun hmem ↦ hno ?_⟩)
  obtain ⟨t, -, rfl⟩ := List.mem_map.1 hmem
  exact ⟨t, hname⟩

/-! ### What a typed table gets -/

/-- A typed row meets the contract of its table. -/
structure MeetsContract (t : SilverTable) (event : PreparedEvent)
    (row : TypedCdcRow (List (Text × Option CdcValue))) : Prop where
  /-- The primary key is not null. -/
  primaryKeys : ∀ key ∈ t.primaryKeys, ∃ v, row.columns.lookup key = some (some v)
  /-- Nor is the event id. -/
  eventId : row.transport.transportEventId.isSome = true
  /-- The operation is known. -/
  operation : row.operation ∈ [some .insert, some .update, some .delete]
  /-- The payload has no field outside the contract. -/
  columns : ∀ column ∈ event.payload.map Prod.fst, column ∈ t.payloadColumns
  /-- What is not null in the payload is not null in the row. -/
  values : ∀ column, (event.payload.elementAt column).isSome = true →
    ∃ v, row.columns.lookup column = some (some v)
  /-- A delete of a child of an order names the order. -/
  orderId : row.operation = some .delete →
    t ∈ [.orderItems, .orderVouchers, .payments, .shipments] →
    ∃ n, row.columns.lookup "order_id".toList = some (some (.integer n)) ∧ 0 < n

/-- **The check of a type does not depend on the time zone.** -/
theorem isSome_typedPayloadValue (column : Text) (dataType : CdcDataType) (zone zone' : Text) :
    (typedPayloadValue readers column dataType zone payload).isSome =
      (typedPayloadValue readers column dataType zone' payload).isSome := by
  cases dataType with
  | timestamp =>
    simp only [typedPayloadValue]
    split <;> simp only [Option.isSome_map]
  | string | integer | boolean | decimal => rfl

/-- The primary key of a table is among the columns of its payload. -/
theorem primaryKeys_subset (t : SilverTable) : t.primaryKeys ⊆ t.payloadColumns := by
  cases t <;> decide

/-- The children of an order have its id, and must have it in a delete. -/
theorem orderId_mem (t : SilverTable)
    (h : t ∈ [SilverTable.orderItems, .orderVouchers, .payments, .shipments]) :
    "order_id".toList ∈ t.deleteContextColumns ∧ "order_id".toList ∈ t.payloadColumns := by
  cases t <;> revert h <;> decide

/-- The value of a column of a typed row. -/
theorem lookup_typedPayload (recordJson : List (Text × Option CdcValue) → Text) (timezone : Text)
    {column : Text} (h : column ∈ t.payloadColumns) :
    ((typedCdcContract readers recordJson t).typedPayload timezone payload).lookup column =
      some (typedPayloadValue readers column (sourceDataType column) timezone payload) := by
  show ((t.payloadColumns.map
    fun column ↦ (⟨column, sourceDataType column⟩ : CdcField)).map _).lookup column = _
  rw [List.map_map]
  exact List.lookup_graph
    (fun column ↦ typedPayloadValue readers column (sourceDataType column) timezone payload) h

/-- A field of the payload is one of its columns. -/
theorem mem_of_elementAt {column : Text} (h : (payload.elementAt column).isSome = true) :
    column ∈ payload.map Prod.fst := by
  obtain ⟨raw, hraw⟩ := Option.isSome_iff_exists.1 h
  have hlookup : payload.lookup column = some (some raw) := Option.join_eq_some_iff.1 hraw
  obtain ⟨entry, hentry, hname⟩ :=
    List.lookup_isSome_iff.1 (Option.isSome_iff_exists.2 ⟨_, hlookup⟩)
  exact List.mem_map.2 ⟨entry, hentry, (eq_of_beq hname).symm⟩

/-- A positive number a delete names is the one the typed row has. -/
theorem PayloadFits.positive (h : PayloadFits readers t operation payload)
    (hagree : readers.IntegersAgree) (hop : operation = some ['d']) {column : Text}
    (hcontext : column ∈ t.deleteContextColumns) (hcolumn : column ∈ t.payloadColumns)
    (hinteger : sourceDataType column = .integer) (timezone : Text) :
    ∃ n, typedPayloadValue readers column (sourceDataType column) timezone payload =
      some (.integer n) ∧ 0 < n := by
  obtain ⟨n, hlong, hpos⟩ := h.deleteContext hop column hcontext
  obtain ⟨raw, hraw, hlong⟩ := Option.bind_eq_some_iff.1 hlong
  have htyped : (typedPayloadValue readers column (sourceDataType column) "UTC".toList
      payload).isSome = true :=
    h.types ⟨column, _⟩ (List.mem_map_of_mem hcolumn) (Option.isSome_iff_exists.2 ⟨raw, hraw⟩)
  have hvalue : ∀ zone, typedPayloadValue readers column (sourceDataType column) zone payload =
      (readers.castInteger raw).map .integer := by
    intro zone
    rw [hinteger, typedPayloadValue, hraw, Option.bind_some]
  rw [hvalue, Option.isSome_map] at htyped
  obtain ⟨m, hm⟩ := Option.isSome_iff_exists.1 htyped
  obtain rfl := Option.some.inj ((hagree raw m hm).symm.trans hlong)
  exact ⟨m, by rw [hvalue, hm, Option.map_some], hpos⟩

variable (settings : SilverStreamSettings) (recordJson : List (Text × Option CdcValue) → Text)
  (batchId : ℕ)

/-- **What has no error meets the contract** once it is typed. -/
theorem IsNormalized.meetsContract (h : IsNormalized fns readers row)
    (hagree : readers.IntegersAgree)
    (hnone : (prepareRawCdcEvents fns readers row).decodeError = none)
    (htable : row.event.transport.sourceTable = some t.name) :
    MeetsContract t (prepareRawCdcEvents fns readers row) (decodeTableEvent fns settings
      (typedCdcContract readers recordJson t) batchId (prepareRawCdcEvents fns readers row)) := by
  obtain ⟨hvalid, hid, -, -, hfits⟩ := decodeError_eq_none.1 hnone
  have hfits := hfits t htable
  obtain ⟨⟨op, hop, hoperation⟩, -⟩ := h.of_isValid hvalid
  set event := prepareRawCdcEvents fns readers row
  have hvalue : ∀ column ∈ t.payloadColumns, (typedPayloadValue readers column
      (sourceDataType column) "UTC".toList event.payload).isSome = true →
        ∃ v, ((typedCdcContract readers recordJson t).typedPayload settings.timezone
          event.payload).lookup column = some (some v) := by
    intro column hcolumn hsome
    rw [isSome_typedPayloadValue column _ _ settings.timezone] at hsome
    obtain ⟨v, hv⟩ := Option.isSome_iff_exists.1 hsome
    exact ⟨v, by rw [lookup_typedPayload recordJson _ hcolumn, hv]⟩
  refine ⟨fun key hkey ↦ hvalue key (primaryKeys_subset t hkey) (hfits.primaryKeys key hkey),
    hid, ?_, hfits.columns, fun column hsome ↦ ?_, fun hdelete hchild ↦ ?_⟩
  · show decodeOperation row.event.operation ∈ _
    rw [hoperation]
    exact decodeOperation_of_valid op hop
  · have hcolumn := hfits.columns column (mem_of_elementAt hsome)
    exact hvalue column hcolumn (hfits.types ⟨column, _⟩ (List.mem_map_of_mem hcolumn) hsome)
  · have hop : row.event.operation = some ['d'] := by
      have hdelete : decodeOperation row.event.operation = some .delete := hdelete
      rw [decodeOperation] at hdelete
      split at hdelete
      · cases hdelete
      · split at hdelete
        · cases hdelete
        · split at hdelete
          · assumption
          · cases hdelete
    obtain ⟨hcontext, hcolumn⟩ := orderId_mem t hchild
    obtain ⟨n, hn, hpos⟩ :=
      hfits.positive hagree hop hcontext hcolumn (by decide) settings.timezone
    exact ⟨n, (lookup_typedPayload recordJson _ hcolumn).trans (congrArg some hn), hpos⟩

/-- The row of quarantine has the raw columns and the error. -/
structure Quarantines (event : PreparedEvent) (row : QuarantineRow) : Prop where
  transport : row.transport = event.transport
  operation : row.operation = event.operation
  reason : event.decodeError = some row.reason

/-- Quarantine gets each row with an error. -/
theorem forall₂_quarantineRows (prepared : List PreparedEvent) :
    List.Forall₂ Quarantines (prepared.filter fun event ↦ event.decodeError.isSome)
      (quarantineRows settings batchId prepared) := by
  induction prepared with
  | nil => exact .nil
  | cons event prepared ih =>
    rw [List.filter_cons, quarantineRows, List.filterMap_cons]
    rcases herror : event.decodeError with - | reason
    · exact ih
    · exact .cons ⟨rfl, rfl, herror⟩ ih

end Accepted

/-! ### A delete of an order item, and a message that is not JSON -/

/-- The row image of the delete. -/
def itemImage : Text :=
  "\x7b\"order_item_id\":9,\"order_id\":4\x7d".toList

/-- The value of its message. -/
def itemDeleteJson : Text :=
  "\x7b\"op\":\"d\",\"ts_ms\":5,".toList
    ++ "\"source\":\x7b\"schema\":\"s\",\"table\":\"order_items\",\"lsn\":7\x7d,".toList
    ++ "\"before\":".toList ++ itemImage ++ "\x7d".toList

/-- What `get_json_object` finds in it. -/
def itemFunctions : SparkFunctions :=
  { SparkFunctions.plain with
    getJsonObject := fun json field ↦
      if json = itemDeleteJson ∧ field = "before".toList then some itemImage else none }

/-- A text of digits as a number. -/
def digitsToInt (raw : Text) : Option ℤ :=
  if raw ≠ [] ∧ raw.all Char.isDigit then some (Nat.ofDigitChars 10 raw 0) else none

/-- What Spark reads in the two messages: `from_json` makes a struct of nulls of what is not
JSON. -/
def itemReaders : CdcReaders where
  envelope json :=
    if json = itemDeleteJson then
      some ⟨some ['d'], some 5,
        some ⟨some ['s'], some SilverTable.orderItems.name, some 7, none, none, none⟩, none⟩
    else some ⟨none, none, none, none⟩
  payloadMap json :=
    if json = itemImage then
      some [("order_item_id".toList, some ['9']), ("order_id".toList, some ['4'])]
    else none
  castLong := digitsToInt
  castInteger raw := (digitsToInt raw).filter fun n ↦ n < 2147483648
  castBoolean _ := none
  castDecimal _ _ _ := none
  toTimestamp _ := none
  toUtcTimestamp _ time := time

/-- The rows of the two messages. -/
def itemRows : List RawCdcRow :=
  [⟨['t'], 0, 0, some itemDeleteJson⟩, ⟨['t'], 0, 1, some ['x']⟩].map
    (normalizeDebeziumEvents itemFunctions itemReaders none 0)

end LakehousePipeline
