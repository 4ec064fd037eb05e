import LakehousePipeline.Spark
import LakehousePipeline.Library.Checks
import LakehousePipeline.Library.Dictionaries
import LakehousePipeline.Library.JsonText

/-!
# Manifests

What a Bronze or a Silver task hands to the next task: a JSON text, written by `serialize_manifest`
and read back, with every field checked, by `deserialize_manifest`. The JSON library is a parameter,
`Json.Codec`; what is used of it is that plain values come back from their text.

A dictionary is a map from texts that does not remember the order of its items, as Python compares
dictionaries; its items come in the order of their keys.

## What is accepted

Each checked field has a lemma that says when it is accepted and what it gives
(`checkedInt_eq_ok_iff`, `stringField_eq_ok_iff`, `operationCounts_eq_ok_iff`). From these, what is
accepted as a whole is valid (`isValid_of_deserializeManifest`): names and types are not empty,
counts and versions are not negative, and every table is under its own name. A boolean is not
accepted for a number, though Python takes it for one.

## What comes back

The batch id of a Bronze manifest is written once, at the top. A result carries a batch id of its
own, which is not written: the reader gives every table the id of the manifest. So a manifest comes
back as `redistributed`, which is the manifest itself exactly if its results carry its id. The
program never makes another one, as `from_results` refuses results of other batches; but nothing in
the type excludes it, and the theorem is about every manifest.

The proof follows the writer: the payload is plain, so it comes back from its text with its keys
sorted; sorting keys does not change what a field reads; and each of the readers inverts the writer
of its part.
-/

namespace LakehousePipeline.Manifests

open Checks

/-- `dict[str, α]`. -/
abbrev Dict (α : Type) := Std.ExtTreeMap Text α

/-- `BronzeTableResult`, with all of its fields. -/
structure BronzeTableResult where
  batchId : Text
  tableName : Text
  recordCount : ℤ
  ingestionType : Text
  deltaVersion : ℤ
  operationCounts : Dict ℤ := ∅
  schemaVersion : ℤ := 1

/-- `BronzeBatchManifest`. -/
structure BronzeBatchManifest where
  batchId : Text
  tables : Dict BronzeTableResult

/-- `SilverTableResult`. -/
structure SilverTableResult where
  tableName : Text
  committedVersion : ℤ
  schemaVersion : ℤ

/-- `SilverBatchManifest`. -/
structure SilverBatchManifest where
  tables : Dict SilverTableResult

/-- `PipelineManifest`. -/
inductive PipelineManifest
  | bronze (manifest : BronzeBatchManifest)
  | silver (manifest : SilverBatchManifest)

/-- The errors raised for a manifest, with what their texts name. -/
inductive ManifestError
  /-- `Bronze manifest contains duplicate table names`. -/
  | duplicateTables
  /-- `Bronze manifest contains a mismatched batch_id`. -/
  | mismatchedBatchId
  /-- `Invalid upstream manifest JSON`. -/
  | invalidJson
  /-- `Invalid upstream manifest payload`. -/
  | invalidPayload
  /-- `Invalid Bronze manifest batch_id`. -/
  | invalidBatchId
  /-- `Unsupported upstream manifest type: _`. -/
  | unsupportedType (manifestType : Option Json)
  /-- `Invalid manifest table name`. -/
  | invalidTableName
  /-- `Invalid manifest table metadata: _`. -/
  | invalidTableMetadata (tableName : Text)
  /-- `Invalid manifest <field>: _`. -/
  | invalidField (fieldName tableName : Text)

/-- `BronzeBatchManifest.from_results`. -/
def BronzeBatchManifest.fromResults (batchId : Text) (results : List BronzeTableResult) :
    Except ManifestError BronzeBatchManifest := do
  let tables : Dict BronzeTableResult :=
    .ofList (results.map fun result ↦ (result.tableName, result))
  ensure (tables.size = results.length) .duplicateTables
  ensure (∀ result ∈ results, result.batchId = batchId) .mismatchedBatchId
  return { batchId := batchId, tables := tables }

/-! ### Writing -/

/-- The counts of `operation_counts`. -/
def countsJson (counts : Dict ℤ) : Json :=
  .object (counts.toList.map fun item ↦ (item.1, .int item.2))

/-- What is written of a Bronze table. -/
def bronzeTableJson (result : BronzeTableResult) : Json :=
  .object [
    ("record_count".toList, .int result.recordCount),
    ("ingestion_type".toList, .string result.ingestionType),
    ("delta_version".toList, .int result.deltaVersion),
    ("operation_counts".toList, countsJson result.operationCounts),
    ("schema_version".toList, .int result.schemaVersion)]

/-- What is written of a Silver table. -/
def silverTableJson (result : SilverTableResult) : Json :=
  .object [
    ("committed_version".toList, .int result.committedVersion),
    ("schema_version".toList, .int result.schemaVersion)]

/-- `payload` of `serialize_manifest`. -/
def manifestPayload : PipelineManifest → Json
  | .bronze manifest => .object [
      ("type".toList, .string "bronze".toList),
      ("batch_id".toList, .string manifest.batchId),
      ("tables".toList,
        .object (manifest.tables.toList.map fun item ↦ (item.1, bronzeTableJson item.2)))]
  | .silver manifest => .object [
      ("type".toList, .string "silver".toList),
      ("tables".toList,
        .object (manifest.tables.toList.map fun item ↦ (item.1, silverTableJson item.2)))]

/-- `serialize_manifest`; it sorts the keys before they are written. -/
def serializeManifest (json : Json.Codec) (manifest : PipelineManifest) : Text :=
  json.dumps (manifestPayload manifest).sortKeys

/-! ### Reading -/

/-- `_table_name`. -/
def checkedTableName (value : Text) : Except ManifestError Text := do
  ensure (value ≠ []) .invalidTableName
  return value

/-- `_table_values`. -/
def tableValues (value : Json) (tableName : Text) :
    Except ManifestError (List (Text × Json)) :=
  match value with
  | .object fields => .ok fields
  | _ => .error (.invalidTableMetadata tableName)

/-- A value that has to be a number that is not negative. A boolean is none. -/
def checkedInt (invalid : ManifestError) : Option Json → Except ManifestError ℤ
  | some (.int n) => do
    ensure (0 ≤ n) invalid
    return n
  | _ => throw invalid

/-- `_non_negative_int`. -/
def nonNegativeInt (values : Json) (fieldName tableName : Text) : Except ManifestError ℤ := do
  let fields ← tableValues values tableName
  checkedInt (.invalidField fieldName tableName) (Json.field fields fieldName)

/-- `_string_field`. -/
def stringField (values : Json) (fieldName tableName : Text) : Except ManifestError Text := do
  let fields ← tableValues values tableName
  match Json.field fields fieldName with
  | some (.string text) =>
    ensure (text ≠ []) (.invalidField fieldName tableName)
    return text
  | _ => throw (.invalidField fieldName tableName)

/-- `_operation_counts`. -/
def operationCounts (values : Json) (tableName : Text) : Except ManifestError (Dict ℤ) := do
  let fields ← tableValues values tableName
  let invalid : ManifestError := .invalidField "operation_counts".toList tableName
  match Json.field fields "operation_counts".toList with
  | some (.object raw) =>
    let counts ← raw.mapM fun item ↦ do return (item.1, ← checkedInt invalid (some item.2))
    return .ofList counts
  | _ => throw invalid

/-- The result of a Bronze table. -/
def bronzeTableResult (batchId name : Text) (values : Json) :
    Except ManifestError BronzeTableResult := do
  return {
    batchId := batchId
    tableName := ← checkedTableName name
    recordCount := ← nonNegativeInt values "record_count".toList name
    ingestionType := ← stringField values "ingestion_type".toList name
    deltaVersion := ← nonNegativeInt values "delta_version".toList name
    operationCounts := ← operationCounts values name
    schemaVersion := ← nonNegativeInt values "schema_version".toList name }

/-- The item of a Silver table. -/
def silverTableResult (name : Text) (values : Json) :
    Except ManifestError (Text × SilverTableResult) := do
  let tableName ← checkedTableName name
  return (tableName, {
    tableName := tableName
    committedVersion := ← nonNegativeInt values "committed_version".toList name
    schemaVersion := ← nonNegativeInt values "schema_version".toList name })

/-- `deserialize_manifest`, once the payload and its tables are known to be dictionaries. -/
def manifestOfPayload (payload tables : List (Text × Json)) :
    Except ManifestError PipelineManifest := do
  let unsupported : ManifestError := .unsupportedType (Json.field payload "type".toList)
  match Json.field payload "type".toList with
  | some (.string manifestType) =>
    if manifestType = "bronze".toList then
      match Json.field payload "batch_id".toList with
      | some (.string batchId) =>
        ensure (batchId ≠ []) .invalidBatchId
        let results ← tables.mapM fun item ↦ bronzeTableResult batchId item.1 item.2
        return .bronze (← BronzeBatchManifest.fromResults batchId results)
      | _ => throw .invalidBatchId
    else if manifestType = "silver".toList then
      let results ← tables.mapM fun item ↦ silverTableResult item.1 item.2
      return .silver { tables := .ofList results }
    else throw unsupported
  | _ => throw unsupported

/-- `deserialize_manifest`. -/
def deserializeManifest (json : Json.Codec) (raw : Text) :
    Except ManifestError PipelineManifest :=
  match json.loads raw with
  | none => .error .invalidJson
  | some (.object payload) =>
    match Json.field payload "tables".toList with
    | some (.object tables) => manifestOfPayload payload tables
    | _ => .error .invalidPayload
  | some _ => .error .invalidPayload

/-! ### What the readers accept -/

/-- The metadata of a table are a dictionary. -/
theorem tableValues_eq_ok_iff {value : Json} {name : Text} {fields : List (Text × Json)} :
    tableValues value name = .ok fields ↔ value = .object fields := by
  cases value <;> simp [tableValues]

/-- A number that is accepted is an integer and not negative. -/
theorem checkedInt_eq_ok_iff {invalid : ManifestError} {value : Option Json} {n : ℤ} :
    checkedInt invalid value = .ok n ↔ value = some (.int n) ∧ 0 ≤ n := by
  unfold checkedInt
  split
  · rename_i m
    rw [ensure_bind_eq_ok]
    constructor
    · rintro ⟨hm, ⟨⟩⟩
      exact ⟨rfl, hm⟩
    · rintro ⟨⟨⟩, hm⟩
      exact ⟨hm, rfl⟩
  · rename_i hnot
    refine ⟨nofun, ?_⟩
    rintro ⟨rfl, -⟩
    exact absurd rfl (hnot n)

/-- The same for a field. -/
theorem nonNegativeInt_eq_ok_iff {values : Json} {fieldName name : Text} {n : ℤ} :
    nonNegativeInt values fieldName name = .ok n ↔
      values.get? fieldName = some (.int n) ∧ 0 ≤ n := by
  simp only [nonNegativeInt, bind_eq_ok, tableValues_eq_ok_iff, checkedInt_eq_ok_iff]
  constructor
  · rintro ⟨fields, rfl, h⟩
    exact h
  · intro h
    cases values with
    | object fields => exact ⟨fields, rfl, h⟩
    | _ => cases h.1

/-- A text that is accepted is not empty. -/
theorem stringField_eq_ok_iff {values : Json} {fieldName name text : Text} :
    stringField values fieldName name = .ok text ↔
      values.get? fieldName = some (.string text) ∧ text ≠ [] := by
  simp only [stringField, bind_eq_ok, tableValues_eq_ok_iff]
  constructor
  · rintro ⟨fields, rfl, h⟩
    split at h
    · rename_i hfield
      obtain ⟨hne, ⟨⟩⟩ := ensure_bind_eq_ok.1 h
      exact ⟨hfield, hne⟩
    · cases h
  · rintro ⟨hfield, hne⟩
    cases values with
    | object fields =>
      rw [Json.get?_object] at hfield
      refine ⟨fields, rfl, ?_⟩
      rw [hfield]
      exact ensure_bind_eq_ok.2 ⟨hne, rfl⟩
    | _ => cases hfield

/-- Counts that are accepted are a dictionary of accepted numbers. -/
theorem operationCounts_eq_ok_iff {values : Json} {name : Text} {counts : Dict ℤ} :
    operationCounts values name = .ok counts ↔ ∃ raw items,
      values.get? "operation_counts".toList = some (.object raw) ∧
      (raw.mapM fun item ↦ do
        return (item.1, ← checkedInt (.invalidField "operation_counts".toList name)
          (some item.2))) = .ok items ∧
      counts = .ofList items := by
  simp only [operationCounts, bind_eq_ok, tableValues_eq_ok_iff]
  constructor
  · rintro ⟨fields, rfl, h⟩
    split at h
    · rename_i raw hfield
      obtain ⟨items, hitems, ⟨⟩⟩ := exists_of_bind_eq_ok h
      exact ⟨raw, items, hfield, hitems, rfl⟩
    · cases h
  · rintro ⟨raw, items, hfield, hitems, rfl⟩
    cases values with
    | object fields =>
      rw [Json.get?_object] at hfield
      refine ⟨fields, rfl, ?_⟩
      rw [hfield]
      exact bind_eq_ok.2 ⟨items, hitems, rfl⟩
    | _ => cases hfield

/-- What is promised of a Bronze table, under its name. -/
structure BronzeTableResult.IsValid (name : Text) (result : BronzeTableResult) : Prop where
  tableName_eq : result.tableName = name
  tableName_ne : name ≠ []
  recordCount_nonneg : 0 ≤ result.recordCount
  ingestionType_ne : result.ingestionType ≠ []
  deltaVersion_nonneg : 0 ≤ result.deltaVersion
  operationCounts_nonneg : ∀ (operation : Text) (count : ℤ),
    result.operationCounts[operation]? = some count → 0 ≤ count
  schemaVersion_nonneg : 0 ≤ result.schemaVersion

/-- What is promised of a Silver table, under its name. -/
structure SilverTableResult.IsValid (name : Text) (result : SilverTableResult) : Prop where
  tableName_eq : result.tableName = name
  tableName_ne : name ≠ []
  committedVersion_nonneg : 0 ≤ result.committedVersion
  schemaVersion_nonneg : 0 ≤ result.schemaVersion

/-- Names and types are not empty, counts and versions not negative, and every table is under its
own name. -/
def PipelineManifest.IsValid : PipelineManifest → Prop
  | .bronze manifest => manifest.batchId ≠ [] ∧
      ∀ (name : Text) (result : BronzeTableResult),
        manifest.tables[name]? = some result → result.IsValid name
  | .silver manifest => ∀ (name : Text) (result : SilverTableResult),
      manifest.tables[name]? = some result → result.IsValid name

/-- The results of the Bronze tables are those of the batch of the manifest. -/
def PipelineManifest.CarriesBatchId : PipelineManifest → Prop
  | .bronze manifest => ∀ (name : Text) (result : BronzeTableResult),
      manifest.tables[name]? = some result → result.batchId = manifest.batchId
  | .silver _ => True

/-- What is read of a Bronze table is valid and carries the batch id it is read with. -/
theorem isValid_of_bronzeTableResult {batchId name : Text} {values : Json}
    {result : BronzeTableResult} (h : bronzeTableResult batchId name values = .ok result) :
    result.IsValid name ∧ result.batchId = batchId := by
  simp only [bronzeTableResult, bind_eq_ok, checkedTableName, ensure_eq_ok,
    nonNegativeInt_eq_ok_iff, stringField_eq_ok_iff, operationCounts_eq_ok_iff] at h
  obtain ⟨_, ⟨_, hname, ⟨⟩⟩, recordCount, ⟨-, hrecord⟩, ingestionType, ⟨-, htype⟩, deltaVersion,
    ⟨-, hdelta⟩, counts, ⟨raw, items, -, hitems, rfl⟩, schemaVersion, ⟨-, hschema⟩, ⟨⟩⟩ := h
  refine ⟨⟨rfl, hname, hrecord, htype, hdelta, fun operation count hcount ↦ ?_, hschema⟩, rfl⟩
  obtain ⟨item, -, hitem⟩ :=
    exists_of_mapM_eq_ok hitems _ (Dictionaries.mem_of_getElem?_ofList hcount)
  obtain ⟨n, hn, ⟨⟩⟩ := exists_of_bind_eq_ok hitem
  exact (checkedInt_eq_ok_iff.1 hn).2

/-- What is read of a Silver table is valid, and read under its name. -/
theorem isValid_of_silverTableResult {name : Text} {values : Json}
    {item : Text × SilverTableResult} (h : silverTableResult name values = .ok item) :
    item.2.IsValid item.1 := by
  simp only [silverTableResult, bind_eq_ok, checkedTableName, ensure_eq_ok,
    nonNegativeInt_eq_ok_iff] at h
  obtain ⟨_, ⟨_, hname, ⟨⟩⟩, committedVersion, ⟨-, hcommitted⟩, schemaVersion, ⟨-, hschema⟩,
    ⟨⟩⟩ := h
  exact ⟨rfl, hname, hcommitted, hschema⟩

/-- Results make a manifest when their names are distinct and they are of one batch. -/
theorem fromResults_eq_ok_iff {batchId : Text} {results : List BronzeTableResult}
    {manifest : BronzeBatchManifest} :
    BronzeBatchManifest.fromResults batchId results = .ok manifest ↔
      (Std.ExtTreeMap.ofList (results.map fun result ↦ (result.tableName, result))).size =
        results.length ∧
      (∀ result ∈ results, result.batchId = batchId) ∧
      manifest = ⟨batchId, .ofList (results.map fun result ↦ (result.tableName, result))⟩ := by
  simp only [BronzeBatchManifest.fromResults, ensure_bind_eq_ok]
  refine and_congr_right fun _ ↦ and_congr_right fun _ ↦ ?_
  constructor
  · rintro ⟨⟩
    rfl
  · rintro rfl
    rfl

/-- What is read of a payload is a valid manifest whose results carry its batch id. -/
theorem isValid_of_manifestOfPayload {payload tables : List (Text × Json)}
    {manifest : PipelineManifest} (h : manifestOfPayload payload tables = .ok manifest) :
    manifest.IsValid ∧ manifest.CarriesBatchId := by
  unfold manifestOfPayload at h
  split at h
  · split at h
    · split at h
      · rename_i batchId _
        obtain ⟨hbatch, h⟩ := ensure_bind_eq_ok.1 h
        obtain ⟨results, hresults, h⟩ := exists_of_bind_eq_ok h
        obtain ⟨bronze, hbronze, ⟨⟩⟩ := exists_of_bind_eq_ok h
        obtain ⟨-, -, rfl⟩ := fromResults_eq_ok_iff.1 hbronze
        have hmem : ∀ (name : Text) (result : BronzeTableResult),
            (Std.ExtTreeMap.ofList (results.map fun r ↦ (r.tableName, r)))[name]? = some result →
              result.IsValid name ∧ result.batchId = batchId := by
          intro name result hresult
          obtain ⟨r, hr, heq⟩ :=
            List.mem_map.1 (Dictionaries.mem_of_getElem?_ofList hresult)
          obtain ⟨rfl, rfl⟩ := Prod.ext_iff.1 heq
          obtain ⟨item, -, hitem⟩ := exists_of_mapM_eq_ok hresults r hr
          obtain ⟨hvalid, hcarries⟩ := isValid_of_bronzeTableResult hitem
          exact ⟨hvalid.tableName_eq ▸ hvalid, hcarries⟩
        exact ⟨⟨hbatch, fun name result hresult ↦ (hmem name result hresult).1⟩,
          fun name result hresult ↦ (hmem name result hresult).2⟩
      · cases h
    · split at h
      · obtain ⟨items, hitems, ⟨⟩⟩ := exists_of_bind_eq_ok h
        refine ⟨fun name result hresult ↦ ?_, trivial⟩
        obtain ⟨item, -, hitem⟩ :=
          exists_of_mapM_eq_ok hitems _ (Dictionaries.mem_of_getElem?_ofList hresult)
        exact isValid_of_silverTableResult hitem
      · cases h
  · cases h

/-- What is accepted is a valid manifest whose results carry its batch id. -/
theorem isValid_of_deserializeManifest {json : Json.Codec} {raw : Text}
    {manifest : PipelineManifest} (h : deserializeManifest json raw = .ok manifest) :
    manifest.IsValid ∧ manifest.CarriesBatchId := by
  unfold deserializeManifest at h
  split at h
  · cases h
  · split at h
    · exact isValid_of_manifestOfPayload h
    · cases h
  · cases h

/-! ### What comes back -/

/-- A dictionary is written in the order of its keys. -/
theorem sortKeys_dict {α : Type} (d : Dict α) (f : α → Json) :
    (Json.object (d.toList.map fun item ↦ (item.1, f item.2))).sortKeys =
      .object (d.toList.map fun item ↦ (item.1, (f item.2).sortKeys)) := by
  rw [Json.sortKeys_object, List.map_map, Json.sortFields_eq]
  · rfl
  · refine List.pairwise_map.2 (d.ordered_keys_toList.imp fun h ↦ ?_)
    simp [h]

/-- A dictionary of plain values is plain. -/
theorem plain_dict {α : Type} (d : Dict α) {f : α → Json} (hf : ∀ a, (f a).Plain) :
    (Json.object (d.toList.map fun item ↦ (item.1, f item.2))).Plain := by
  rw [Json.Plain]
  refine ⟨?_, List.forall_mem_map.2 fun item _ ↦ hf item.2⟩
  rw [List.map_map, List.Nodup, List.pairwise_map]
  refine d.distinct_keys_toList.imp fun {a b} hne heq ↦ hne ?_
  exact Std.compare_eq_iff_eq.2 heq

/-- Counts are written as plain values. -/
theorem plain_countsJson (counts : Dict ℤ) : (countsJson counts).Plain :=
  plain_dict counts fun _ ↦ by simp [Json.Plain]

/-- So is a Bronze table. -/
theorem plain_bronzeTableJson (result : BronzeTableResult) : (bronzeTableJson result).Plain := by
  rw [bronzeTableJson, Json.Plain]
  refine ⟨by simp only [List.map_cons, List.map_nil]; decide, ?_⟩
  simp [Json.Plain, plain_countsJson]

/-- And a Silver table. -/
theorem plain_silverTableJson (result : SilverTableResult) : (silverTableJson result).Plain := by
  rw [silverTableJson, Json.Plain]
  refine ⟨by simp only [List.map_cons, List.map_nil]; decide, ?_⟩
  simp [Json.Plain]

/-- The payload has no floats and no key twice. -/
theorem plain_manifestPayload (manifest : PipelineManifest) : (manifestPayload manifest).Plain := by
  cases manifest with
  | bronze manifest =>
    have htables := plain_dict manifest.tables plain_bronzeTableJson
    rw [manifestPayload, Json.Plain]
    refine ⟨by simp only [List.map_cons, List.map_nil]; decide, ?_⟩
    simpa [Json.Plain] using htables
  | silver manifest =>
    have htables := plain_dict manifest.tables plain_silverTableJson
    rw [manifestPayload, Json.Plain]
    refine ⟨by simp only [List.map_cons, List.map_nil]; decide, ?_⟩
    simpa [Json.Plain] using htables

/-- A number has no keys. -/
@[simp] theorem sortKeys_int (n : ℤ) : (Json.int n).sortKeys = .int n := by
  simp [Json.sortKeys]

/-- Nor has a text. -/
@[simp] theorem sortKeys_string (text : Text) : (Json.string text).sortKeys = .string text := by
  simp [Json.sortKeys]

/-- The counts come back. -/
theorem operationCounts_eq_ok {values : Json} {name : Text} {counts : Dict ℤ}
    (hvalues : values.get? "operation_counts".toList = some (countsJson counts).sortKeys)
    (h : ∀ (operation : Text) (count : ℤ), counts[operation]? = some count → 0 ≤ count) :
    operationCounts values name = .ok counts := by
  rw [countsJson, sortKeys_dict counts fun n ↦ .int n] at hvalues
  refine operationCounts_eq_ok_iff.2 ⟨_, counts.toList, hvalues, ?_,
    (Dictionaries.ofList_toList counts).symm⟩
  have hitem : ∀ item ∈ counts.toList,
      (do return (item.1, ← checkedInt (.invalidField "operation_counts".toList name)
        (some (Json.int item.2).sortKeys))) = .ok item := by
    intro item hmem
    have hcount := h item.1 item.2 (Std.ExtTreeMap.mem_toList_iff_getElem?_eq_some.1 hmem)
    exact bind_eq_ok.2 ⟨item.2, checkedInt_eq_ok_iff.2 ⟨by rw [sortKeys_int], hcount⟩, rfl⟩
  rw [mapM_map_eq_ok hitem, List.map_id']

/-- A result with another batch id. -/
def BronzeTableResult.withBatchId (batchId : Text) (result : BronzeTableResult) :
    BronzeTableResult :=
  { result with batchId := batchId }

/-- A Bronze table comes back, with the batch id it is read with. -/
theorem bronzeTableResult_eq_ok {batchId name : Text} {result : BronzeTableResult}
    (h : result.IsValid name) :
    bronzeTableResult batchId name (bronzeTableJson result).sortKeys =
      .ok (result.withBatchId batchId) := by
  have hplain := plain_bronzeTableJson result
  have hget : ∀ key, (bronzeTableJson result).sortKeys.get? key =
      ((bronzeTableJson result).get? key).map Json.sortKeys := by
    rw [bronzeTableJson, Json.Plain] at hplain
    exact Json.get?_sortKeys_object hplain.1
  have hrecord : nonNegativeInt (bronzeTableJson result).sortKeys "record_count".toList name =
      .ok result.recordCount :=
    nonNegativeInt_eq_ok_iff.2 ⟨(hget _).trans (congrArg some (sortKeys_int _)),
      h.recordCount_nonneg⟩
  have hdelta : nonNegativeInt (bronzeTableJson result).sortKeys "delta_version".toList name =
      .ok result.deltaVersion :=
    nonNegativeInt_eq_ok_iff.2 ⟨(hget _).trans (congrArg some (sortKeys_int _)),
      h.deltaVersion_nonneg⟩
  have hschema : nonNegativeInt (bronzeTableJson result).sortKeys "schema_version".toList name =
      .ok result.schemaVersion :=
    nonNegativeInt_eq_ok_iff.2 ⟨(hget _).trans (congrArg some (sortKeys_int _)),
      h.schemaVersion_nonneg⟩
  have htype : stringField (bronzeTableJson result).sortKeys "ingestion_type".toList name =
      .ok result.ingestionType :=
    stringField_eq_ok_iff.2 ⟨(hget _).trans (congrArg some (sortKeys_string _)),
      h.ingestionType_ne⟩
  have hcounts : operationCounts (bronzeTableJson result).sortKeys name =
      .ok result.operationCounts :=
    operationCounts_eq_ok (hget _) h.operationCounts_nonneg
  have hname : checkedTableName name = .ok name := by
    simp only [checkedTableName, ensure_of h.tableName_ne, ok_bind]
    rfl
  simp only [bronzeTableResult, hrecord, hdelta, hschema, htype, hcounts, hname, ok_bind]
  rw [← h.tableName_eq]
  rfl

/-- A Silver table comes back. -/
theorem silverTableResult_eq_ok {name : Text} {result : SilverTableResult}
    (h : result.IsValid name) :
    silverTableResult name (silverTableJson result).sortKeys = .ok (name, result) := by
  have hplain := plain_silverTableJson result
  have hget : ∀ key, (silverTableJson result).sortKeys.get? key =
      ((silverTableJson result).get? key).map Json.sortKeys := by
    rw [silverTableJson, Json.Plain] at hplain
    exact Json.get?_sortKeys_object hplain.1
  have hcommitted : nonNegativeInt (silverTableJson result).sortKeys "committed_version".toList
      name = .ok result.committedVersion :=
    nonNegativeInt_eq_ok_iff.2 ⟨(hget _).trans (congrArg some (sortKeys_int _)),
      h.committedVersion_nonneg⟩
  have hschema : nonNegativeInt (silverTableJson result).sortKeys "schema_version".toList name =
      .ok result.schemaVersion :=
    nonNegativeInt_eq_ok_iff.2 ⟨(hget _).trans (congrArg some (sortKeys_int _)),
      h.schemaVersion_nonneg⟩
  have hname : checkedTableName name = .ok name := by
    simp only [checkedTableName, ensure_of h.tableName_ne, ok_bind]
    rfl
  simp only [silverTableResult, hcommitted, hschema, hname, ok_bind]
  rw [← h.tableName_eq]
  rfl

/-- The tables with the batch id of their manifest. -/
def BronzeBatchManifest.redistributed (manifest : BronzeBatchManifest) : BronzeBatchManifest where
  batchId := manifest.batchId
  tables := .ofList (manifest.tables.toList.map fun item ↦
    (item.1, item.2.withBatchId manifest.batchId))

/-- The manifest that comes back: the batch id is written once and given to every table. -/
def PipelineManifest.redistributed : PipelineManifest → PipelineManifest
  | .bronze manifest => .bronze manifest.redistributed
  | .silver manifest => .silver manifest

/-- The results of a valid manifest, read with its batch id, make a manifest. -/
theorem fromResults_eq_ok {manifest : BronzeBatchManifest}
    (h : PipelineManifest.IsValid (.bronze manifest)) :
    BronzeBatchManifest.fromResults manifest.batchId
        (manifest.tables.toList.map fun item ↦ item.2.withBatchId manifest.batchId) =
      .ok manifest.redistributed := by
  have hitems : ((manifest.tables.toList.map fun item ↦
      item.2.withBatchId manifest.batchId).map fun result ↦ (result.tableName, result)) =
      manifest.tables.toList.map fun item ↦ (item.1, item.2.withBatchId manifest.batchId) := by
    rw [List.map_map]
    refine List.map_congr_left fun item hitem ↦ ?_
    have hvalid := h.2 item.1 item.2 (Std.ExtTreeMap.mem_toList_iff_getElem?_eq_some.1 hitem)
    exact Prod.ext hvalid.tableName_eq rfl
  refine fromResults_eq_ok_iff.2 ⟨?_, List.forall_mem_map.2 fun _ _ ↦ rfl, by rw [hitems]; rfl⟩
  rw [hitems, Std.ExtTreeMap.size_ofList, List.length_map, List.length_map]
  exact Dictionaries.pairwise_toList_map manifest.tables fun _ result ↦
    result.withBatchId manifest.batchId

/-- A valid manifest comes back with its batch id given to every table. -/
theorem deserializeManifest_serializeManifest {json : Json.Codec} (hjson : json.Lawful)
    {manifest : PipelineManifest} (h : manifest.IsValid) :
    deserializeManifest json (serializeManifest json manifest) = .ok manifest.redistributed := by
  have hplain := plain_manifestPayload manifest
  have hloads : json.loads (serializeManifest json manifest) =
      some (manifestPayload manifest).sortKeys := hjson _ hplain.sortKeys
  cases manifest with
  | bronze manifest =>
    rw [manifestPayload, Json.Plain] at hplain
    -- `sort_keys` moves the fields, and each is still found under its name
    have hfield := Json.get?_sortKeys_object hplain.1
    rw [manifestPayload, Json.sortKeys_object] at hloads
    simp only [Json.sortKeys_object, Json.get?_object] at hfield
    have htables := (hfield "tables".toList).trans
      (congrArg some (sortKeys_dict manifest.tables bronzeTableJson))
    have htype := (hfield "type".toList).trans (congrArg some (sortKeys_string _))
    have hbatch := (hfield "batch_id".toList).trans (congrArg some (sortKeys_string _))
    have hresults : ((manifest.tables.toList.map fun item ↦
        (item.1, (bronzeTableJson item.2).sortKeys)).mapM fun item ↦
          bronzeTableResult manifest.batchId item.1 item.2) = .ok _ :=
      mapM_map_eq_ok fun item hitem ↦ bronzeTableResult_eq_ok
        (h.2 item.1 item.2 (Std.ExtTreeMap.mem_toList_iff_getElem?_eq_some.1 hitem))
    simp only [deserializeManifest, hloads, htables, manifestOfPayload, htype, hbatch, if_true,
      ensure_of h.1, ok_bind, hresults, fromResults_eq_ok h]
    rfl
  | silver manifest =>
    rw [manifestPayload, Json.Plain] at hplain
    have hfield := Json.get?_sortKeys_object hplain.1
    rw [manifestPayload, Json.sortKeys_object] at hloads
    simp only [Json.sortKeys_object, Json.get?_object] at hfield
    have htables := (hfield "tables".toList).trans
      (congrArg some (sortKeys_dict manifest.tables silverTableJson))
    have htype := (hfield "type".toList).trans (congrArg some (sortKeys_string _))
    have hresults : ((manifest.tables.toList.map fun item ↦
        (item.1, (silverTableJson item.2).sortKeys)).mapM fun item ↦
          silverTableResult item.1 item.2) = .ok _ :=
      mapM_map_eq_ok fun item hitem ↦ silverTableResult_eq_ok
        (h item.1 item.2 (Std.ExtTreeMap.mem_toList_iff_getElem?_eq_some.1 hitem))
    have hne : "silver".toList ≠ "bronze".toList := by decide
    simp only [deserializeManifest, hloads, htables, manifestOfPayload, htype, if_neg hne, if_true,
      hresults, ok_bind, List.map_id', Dictionaries.ofList_toList]
    rfl

/-- A valid manifest is given its own batch id exactly if its tables carry it. -/
theorem PipelineManifest.redistributed_eq_iff {manifest : PipelineManifest} :
    manifest.redistributed = manifest ↔ manifest.CarriesBatchId := by
  cases manifest with
  | silver manifest => exact iff_of_true rfl trivial
  | bronze manifest =>
    have hget := Dictionaries.getElem?_ofList_toList_map manifest.tables
      fun _ result ↦ result.withBatchId manifest.batchId
    constructor
    · intro heq name result hresult
      have htables : manifest.redistributed.tables = manifest.tables :=
        congrArg BronzeBatchManifest.tables (PipelineManifest.bronze.inj heq)
      have hname := hget name
      rw [hresult, Option.map_some] at hname
      have hsame : some (result.withBatchId manifest.batchId) = some result :=
        hname.symm.trans
          ((congrArg (fun tables : Dict BronzeTableResult ↦ tables[name]?) htables).trans hresult)
      exact (congrArg BronzeTableResult.batchId (Option.some.inj hsame)).symm
    · intro hcarries
      have htables : manifest.redistributed.tables = manifest.tables := by
        refine Std.ExtTreeMap.ext_getElem? fun name ↦ (hget name).trans ?_
        cases hresult : manifest.tables[name]? with
        | none => rfl
        | some result =>
          rw [Option.map_some, BronzeTableResult.withBatchId, ← hcarries name result hresult]
      rw [PipelineManifest.redistributed, BronzeBatchManifest.redistributed]
      exact congrArg (fun tables ↦ PipelineManifest.bronze ⟨manifest.batchId, tables⟩) htables

/-- **Manifests survive the task boundary.** A valid manifest comes back as it was exactly if its
tables carry its batch id, and whatever is accepted is such a manifest and comes back as it is. -/
theorem manifests_survive {json : Json.Codec} (hjson : json.Lawful) :
    (∀ manifest : PipelineManifest, manifest.IsValid →
      (deserializeManifest json (serializeManifest json manifest) = .ok manifest ↔
        manifest.CarriesBatchId)) ∧
    ∀ (raw : Text) (manifest : PipelineManifest), deserializeManifest json raw = .ok manifest →
      manifest.IsValid ∧ manifest.CarriesBatchId ∧
        deserializeManifest json (serializeManifest json manifest) = .ok manifest := by
  have hfirst : ∀ manifest : PipelineManifest, manifest.IsValid →
      (deserializeManifest json (serializeManifest json manifest) = .ok manifest ↔
        manifest.CarriesBatchId) := by
    intro manifest h
    rw [deserializeManifest_serializeManifest hjson h, Except.ok.injEq,
      PipelineManifest.redistributed_eq_iff]
  refine ⟨hfirst, fun raw manifest h ↦ ?_⟩
  obtain ⟨hvalid, hcarries⟩ := isValid_of_deserializeManifest h
  exact ⟨hvalid, hcarries, (hfirst manifest hvalid).2 hcarries⟩

/-- What a batch reports of the orders. -/
def ordersResult (batchId : Text) : BronzeTableResult where
  batchId := batchId
  tableName := "orders".toList
  recordCount := 3
  ingestionType := "incremental".toList
  deltaVersion := 8
  operationCounts := .ofList [("INSERT".toList, (2 : ℤ)), ("UPDATE".toList, 1)]

/-- The manifest of a batch with one result, which carries `resultBatchId`. -/
def ordersManifest (resultBatchId : Text) : PipelineManifest :=
  .bronze ⟨"batch-1".toList, .ofList [("orders".toList, ordersResult resultBatchId)]⟩

/-- The manifest is valid, whatever batch id its result carries. -/
theorem isValid_ordersManifest (resultBatchId : Text) : (ordersManifest resultBatchId).IsValid := by
  have hbatch : "batch-1".toList ≠ [] := by decide
  have hname : "orders".toList ≠ [] := by decide
  have htype : "incremental".toList ≠ [] := by decide
  refine ⟨hbatch, fun name result hresult ↦ ?_⟩
  obtain ⟨rfl, rfl⟩ := Prod.ext_iff.1
    (List.mem_singleton.1 (Dictionaries.mem_of_getElem?_ofList hresult))
  refine ⟨rfl, hname, Int.natCast_nonneg 3, htype, Int.natCast_nonneg 8,
    fun operation count hcount ↦ ?_, Int.natCast_nonneg 1⟩
  have hcounts : ∀ item ∈ [("INSERT".toList, (2 : ℤ)), ("UPDATE".toList, 1)], 0 ≤ item.2 := by
    decide
  exact hcounts _ (Dictionaries.mem_of_getElem?_ofList hcount)

/-- Its result carries its batch id if it is that one. -/
theorem carriesBatchId_ordersManifest (resultBatchId : Text) :
    (ordersManifest resultBatchId).CarriesBatchId ↔ resultBatchId = "batch-1".toList := by
  constructor
  · intro h
    refine h "orders".toList (ordersResult resultBatchId) ?_
    exact Std.ExtTreeMap.getElem?_ofList_of_mem Std.ReflCmp.compare_self
      (List.pairwise_singleton _ _) List.mem_cons_self
  · rintro rfl name result hresult
    obtain ⟨rfl, rfl⟩ := Prod.ext_iff.1
      (List.mem_singleton.1 (Dictionaries.mem_of_getElem?_ofList hresult))
    rfl

/-- The manifest of the orders comes back through compact JSON. -/
theorem ordersManifest_survives :
    deserializeManifest Json.compact
        (serializeManifest Json.compact (ordersManifest "batch-1".toList)) =
      .ok (ordersManifest "batch-1".toList) :=
  ((manifests_survive Json.compact_lawful).1 _ (isValid_ordersManifest _)).2
    ((carriesBatchId_ordersManifest _).2 rfl)

/-- A result of another batch does not: it is read as one of the batch of the manifest. -/
theorem not_forall_manifests_survive :
    ¬∀ json : Json.Codec, json.Lawful → ∀ manifest : PipelineManifest, manifest.IsValid →
      deserializeManifest json (serializeManifest json manifest) = .ok manifest := by
  intro h
  have hvalid := isValid_ordersManifest "batch-2".toList
  have hsurvives := h Json.compact Json.compact_lawful _ hvalid
  rw [deserializeManifest_serializeManifest Json.compact_lawful hvalid, Except.ok.injEq,
    PipelineManifest.redistributed_eq_iff, carriesBatchId_ordersManifest] at hsurvives
  exact absurd hsurvives (by decide)

end LakehousePipeline.Manifests
