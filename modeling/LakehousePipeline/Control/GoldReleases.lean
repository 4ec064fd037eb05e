import LakehousePipeline.Config.TableReferences
import LakehousePipeline.Control.Manifests
import LakehousePipeline.Contracts

/-!
# `GoldReleaseStore`

The active Gold release is a JSON text in a property of `fact_sales`. `publish` checks a candidate
and sets the property by an SQL statement; `latest` reads the property back and checks every field.
The commit that sets the property is one more version of `fact_sales`, so the release pins the
version after the candidate's.

`publish` does not check the batch id and `latest` does: `latest_afterPublishes` says what a reader
gets after any candidates, published or refused.

The JSON library is a parameter, and so is what Spark reads of a string literal: `_sql_literal`
doubles apostrophes only, and of Spark it is used that a text without apostrophes, backslashes and
dollar signs stands for itself between two apostrophes.

## The way of a release

A candidate becomes a JSON text, the text an SQL literal, and the literal a property of the table;
a reader goes the same way back. Each step has its own condition. JSON gives plain values back, the
literal gives a text back if its characters need no escape, and the checks of the reader accept what
the checks of the writer have let through, but for the batch id.

* `releaseFromJson_metadata` is the round trip of the JSON text with the reader's checks.
* `setDeltaTableProperty_metadata` is that of the literal, for candidates whose free texts print as
  they are (`PrintsVerbatim`). An apostrophe is doubled by `_sql_literal` and a quotation mark is
  escaped by JSON with a backslash, which the literal does not keep; so neither can be allowed.
* `afterPublish_of_publishable` and `afterPublish_of_not_publishable` are the two cases of an
  attempt, and `latest_afterPublishes` is the induction over attempts.
-/

namespace LakehousePipeline.GoldReleases

open Checks Manifests

/-- `quality_status`. -/
inductive QualityStatus
  | passed

/-- The text of a status. -/
def QualityStatus.text : QualityStatus → Text
  | .passed => "PASSED".toList

/-- `GoldCandidateManifest`. -/
structure GoldCandidateManifest where
  batchId : Text
  changedTables : Std.ExtTreeSet Text
  committedVersions : Dict ℤ
  silverVersions : Dict ℤ
  qualityStatus : QualityStatus

/-- `GoldRelease`, as the store writes and reads it. -/
structure StoredRelease where
  batchId : Text
  silverVersions : Dict ℤ
  goldVersions : Dict ℤ

/-- The errors of the store, with what their texts name. -/
inductive StoreError
  /-- `Invalid Gold release versions: <field>`. -/
  | invalidVersions (fieldName : Text)
  /-- `Gold release table set mismatch: missing=_, unexpected=_`. -/
  | tableSetMismatch (missing unexpected : List Text)
  /-- `Unknown changed Gold tables: _`. -/
  | unknownChangedTables (unknown : List Text)
  /-- Spark refuses the statement that sets the property. -/
  | statementFailed
  /-- `Invalid Gold release marker JSON`. -/
  | invalidJson
  /-- `Invalid Gold release marker`. -/
  | invalidMarker
  /-- `Unsupported Gold release schema: _`. -/
  | unsupportedSchema (schemaVersion : Option Json)
  /-- `Invalid Gold release batch_id`. -/
  | invalidBatchId
  /-- `Invalid Gold release field: <field>`. -/
  | invalidField (fieldName : Text)
  /-- `Gold has no published release`. -/
  | noRelease

/-- `GOLD_TABLES`, in the order of the names. -/
def goldTableNames : List Text :=
  (goldTables.map GoldTable.tableName).insertionSort fun a b ↦ (compare a b).isLE

/-- `GOLD_RELEASE_PROPERTY`. -/
def goldReleaseProperty : Text :=
  "pipeline.goldActiveRelease".toList

/-! ### Checks of versions -/

/-- Names are not empty and versions not negative. -/
def ValidVersions (versions : Dict ℤ) : Prop :=
  ∀ item ∈ versions.toList, item.1 ≠ [] ∧ 0 ≤ item.2

instance (versions : Dict ℤ) : Decidable (ValidVersions versions) :=
  inferInstanceAs (Decidable (∀ item ∈ versions.toList, item.1 ≠ [] ∧ 0 ≤ item.2))

/-- `sorted(expected - set(versions))`. -/
def missingNames (versions : Dict ℤ) (expected : List Text) : List Text :=
  expected.filter fun name ↦ name ∉ versions

/-- `sorted(set(versions) - expected)`. -/
def unexpectedNames (versions : Dict ℤ) (expected : List Text) : List Text :=
  versions.keys.filter fun name ↦ name ∉ expected

/-- The versions are of the expected names. -/
def SameNames (versions : Dict ℤ) (expected : List Text) : Prop :=
  missingNames versions expected = [] ∧ unexpectedNames versions expected = []

instance (versions : Dict ℤ) (expected : List Text) : Decidable (SameNames versions expected) :=
  inferInstanceAs (Decidable (_ ∧ _))

/-- `_validate_versions`. -/
def validateVersions (versions : Dict ℤ) (fieldName : Text) (expected : Option (List Text)) :
    Except StoreError Unit := do
  ensure (ValidVersions versions) (.invalidVersions fieldName)
  match expected with
  | none => return
  | some expected =>
    ensure (SameNames versions expected)
      (.tableSetMismatch (missingNames versions expected) (unexpectedNames versions expected))

/-! ### Publishing -/

/-- What Spark reads of a string literal, written with its quotes. -/
structure SqlReader where
  literal : Text → Option Text

/-- A text that stands for itself in a literal. -/
def Verbatim (c : Char) : Prop :=
  c ≠ '\x27' ∧ c ≠ '\x5c' ∧ c ≠ '$'

instance : DecidablePred Verbatim :=
  fun _ ↦ inferInstanceAs (Decidable (_ ∧ _))

/-- Between apostrophes, characters that need no escape stand for themselves. -/
def SqlReader.Lawful (sql : SqlReader) : Prop :=
  ∀ value : Text, (∀ c ∈ value, Verbatim c) →
    sql.literal ('\x27' :: value ++ ['\x27']) = some value

/-- `_sql_literal`. -/
def sqlLiteral (value : Text) : Text :=
  '\x27' :: (value.flatMap fun c ↦ if c = '\x27' then ['\x27', '\x27'] else [c]) ++ ['\x27']

/-- The property dictionary of a table, none when there is no table. -/
abbrev TableProperties := Option (Dict Text)

/-- `set_delta_table_property`. -/
def setDeltaTableProperty (sql : SqlReader) (table : TableProperties) (key value : Text) :
    Except StoreError (Dict Text) :=
  match table, sql.literal (sqlLiteral key), sql.literal (sqlLiteral value) with
  | some properties, some key, some value => .ok (properties.insert key value)
  | _, _, _ => .error .statementFailed

/-- A dictionary of versions. -/
def versionsJson (versions : Dict ℤ) : Json :=
  .object (versions.toList.map fun item ↦ (item.1, .int item.2))

/-- The release a candidate becomes. -/
def GoldCandidateManifest.release (candidate : GoldCandidateManifest) : StoredRelease where
  batchId := candidate.batchId
  silverVersions := candidate.silverVersions
  goldVersions := candidate.committedVersions.modify GoldTable.factSales.tableName fun n ↦ n + 1

/-- `metadata` of `publish`. -/
def GoldCandidateManifest.metadata (candidate : GoldCandidateManifest) : Json :=
  .object [
    ("schema_version".toList, .int 1),
    ("pipeline".toList, .string "silver_to_gold".toList),
    ("batch_id".toList, .string candidate.release.batchId),
    ("changed_gold_tables".toList, .array (candidate.changedTables.toList.map .string)),
    ("quality_status".toList, .string candidate.qualityStatus.text),
    ("silver_versions".toList, versionsJson candidate.release.silverVersions),
    ("gold_versions".toList, versionsJson candidate.release.goldVersions)]

/-- The changed tables that are none of Gold. -/
def GoldCandidateManifest.unknownTables (candidate : GoldCandidateManifest) : List Text :=
  candidate.changedTables.toList.filter fun name ↦ name ∉ goldTableNames

/-- `publish`: the release, and the properties of `fact_sales` after it. -/
def publish (json : Json.Codec) (sql : SqlReader) (table : TableProperties)
    (candidate : GoldCandidateManifest) : Except StoreError (StoredRelease × Dict Text) := do
  validateVersions candidate.silverVersions "silver_versions".toList none
  validateVersions candidate.committedVersions "gold_versions".toList (some goldTableNames)
  ensure (candidate.unknownTables = []) (.unknownChangedTables candidate.unknownTables)
  let properties ← setDeltaTableProperty sql table goldReleaseProperty
    (json.dumps candidate.metadata.sortKeys)
  return (candidate.release, properties)

/-! ### Reading -/

/-- `schema_version == RELEASE_SCHEMA_VERSION`. In Python, `True` is equal to one, and so are some
floats. -/
def isReleaseSchemaVersion (isOne : Text → Bool) : Option Json → Bool
  | some (.int n) => n = 1
  | some (.bool b) => b
  | some (.float literal) => isOne literal
  | _ => false

/-- A version with its name. -/
def checkedVersion (fieldName : Text) (item : Text × Json) : Except StoreError (Text × ℤ) :=
  match item with
  | (name, .int n) => do
    ensure (name ≠ [] ∧ 0 ≤ n) (.invalidVersions fieldName)
    return (name, n)
  | _ => .error (.invalidVersions fieldName)

/-- `_versions_from_value`. -/
def versionsFromValue (fieldName : Text) (expected : Option (List Text)) :
    Option Json → Except StoreError (Dict ℤ)
  | some (.object raw) => do
    let items ← raw.mapM (checkedVersion fieldName)
    let versions : Dict ℤ := .ofList items
    validateVersions versions fieldName expected
    return versions
  | _ => .error (.invalidField fieldName)

/-- `_release_from_metadata`. -/
def releaseFromMetadata (isOne : Text → Bool) (metadata : Json) :
    Except StoreError StoredRelease := do
  let schemaVersion := metadata.get? "schema_version".toList
  ensure (isReleaseSchemaVersion isOne schemaVersion) (.unsupportedSchema schemaVersion)
  match metadata.get? "batch_id".toList with
  | some (.string batchId) =>
    ensure (batchId ≠ []) .invalidBatchId
    let silverVersions ← versionsFromValue "silver_versions".toList none
      (metadata.get? "silver_versions".toList)
    let goldVersions ← versionsFromValue "gold_versions".toList (some goldTableNames)
      (metadata.get? "gold_versions".toList)
    return { batchId := batchId, silverVersions := silverVersions, goldVersions := goldVersions }
  | _ => throw .invalidBatchId

/-- `_release_from_json`. -/
def releaseFromJson (json : Json.Codec) (isOne : Text → Bool) (raw : Text) :
    Except StoreError StoredRelease :=
  match json.loads raw with
  | none => .error .invalidJson
  | some (.object fields) => releaseFromMetadata isOne (.object fields)
  | some _ => .error .invalidMarker

/-- `latest`. -/
def latest (json : Json.Codec) (isOne : Text → Bool) (table : TableProperties) :
    Except StoreError (Option StoredRelease) :=
  match table.bind fun properties ↦ properties[goldReleaseProperty]? with
  | none => .ok none
  | some raw => do return some (← releaseFromJson json isOne raw)

/-- `snapshot`: the versions it reads the Gold tables at. -/
def snapshot (json : Json.Codec) (isOne : Text → Bool) (table : TableProperties) :
    Except StoreError (Dict ℤ) := do
  match ← latest json isOne table with
  | none => throw .noRelease
  | some release => return release.goldVersions

/-! ### What the checks accept -/

/-- Versions are valid entry by entry. -/
theorem validVersions_iff {versions : Dict ℤ} :
    ValidVersions versions ↔
      ∀ (name : Text) (n : ℤ), versions[name]? = some n → name ≠ [] ∧ 0 ≤ n := by
  constructor
  · exact fun h name n hn ↦ h (name, n) (Std.ExtTreeMap.mem_toList_iff_getElem?_eq_some.2 hn)
  · exact fun h item hitem ↦
      h item.1 item.2 (Std.ExtTreeMap.mem_toList_iff_getElem?_eq_some.1 hitem)

/-- No name is missing and none is unexpected. -/
theorem sameNames_iff {versions : Dict ℤ} {expected : List Text} :
    SameNames versions expected ↔ ∀ name, name ∈ versions ↔ name ∈ expected := by
  simp only [SameNames, missingNames, unexpectedNames, List.filter_eq_nil_iff, decide_not,
    Bool.not_eq_true', decide_eq_false_iff_not, not_not, Std.ExtTreeMap.mem_keys]
  exact ⟨fun h name ↦ ⟨h.2 name, h.1 name⟩, fun h ↦ ⟨fun name ↦ (h name).2, fun name ↦ (h name).1⟩⟩

/-- Versions made of valid items are valid. -/
theorem validVersions_ofList {items : List (Text × ℤ)}
    (h : ∀ item ∈ items, item.1 ≠ [] ∧ 0 ≤ item.2) : ValidVersions (.ofList items) :=
  validVersions_iff.2 fun _ _ hn ↦ h _ (Dictionaries.mem_of_getElem?_ofList hn)

/-- The names are those of the items. -/
theorem mem_ofList {items : List (Text × ℤ)} {name : Text} :
    name ∈ (Std.ExtTreeMap.ofList items : Dict ℤ) ↔ name ∈ items.map Prod.fst := by
  rw [Std.ExtTreeMap.mem_ofList, List.contains_iff_mem]

/-- What `_validate_versions` accepts. -/
theorem validateVersions_eq_ok_iff {versions : Dict ℤ} {fieldName : Text}
    {expected : Option (List Text)} :
    validateVersions versions fieldName expected = .ok () ↔
      ValidVersions versions ∧ ∀ names, expected = some names → SameNames versions names := by
  cases expected with
  | none =>
    refine ensure_bind_eq_ok.trans (and_congr_right fun _ ↦ ?_)
    exact iff_of_true rfl fun _ h ↦ (by cases h)
  | some names =>
    refine ensure_bind_eq_ok.trans (and_congr_right fun _ ↦ ensure_eq_ok.trans ?_)
    constructor
    · rintro h _ ⟨⟩
      exact h
    · exact fun h ↦ h names rfl

/-- All changed tables are Gold tables. -/
theorem unknownTables_eq_nil_iff {candidate : GoldCandidateManifest} :
    candidate.unknownTables = [] ↔ ∀ name ∈ candidate.changedTables, name ∈ goldTableNames := by
  simp [GoldCandidateManifest.unknownTables, List.filter_eq_nil_iff]

/-- **What a candidate needs to be published.** -/
structure GoldCandidateManifest.Publishable (candidate : GoldCandidateManifest) : Prop where
  silverVersions : ValidVersions candidate.silverVersions
  committedVersions : ValidVersions candidate.committedVersions
  goldTables : SameNames candidate.committedVersions goldTableNames
  changedTables : candidate.unknownTables = []

instance (candidate : GoldCandidateManifest) : Decidable candidate.Publishable :=
  decidable_of_iff
    (ValidVersions candidate.silverVersions ∧ ValidVersions candidate.committedVersions ∧
      SameNames candidate.committedVersions goldTableNames ∧ candidate.unknownTables = [])
    ⟨fun h ↦ ⟨h.1, h.2.1, h.2.2.1, h.2.2.2⟩, fun h ↦ ⟨h.1, h.2, h.3, h.4⟩⟩

/-- **What a reader is promised of a release.** -/
structure StoredRelease.IsValid (release : StoredRelease) : Prop where
  batchId_ne : release.batchId ≠ []
  silverVersions : ValidVersions release.silverVersions
  goldVersions : ValidVersions release.goldVersions
  goldTables : SameNames release.goldVersions goldTableNames

/-- Versions that are read are valid and of the expected names. -/
theorem of_versionsFromValue {fieldName : Text} {expected : Option (List Text)}
    {value : Option Json} {versions : Dict ℤ}
    (h : versionsFromValue fieldName expected value = .ok versions) :
    ValidVersions versions ∧ ∀ names, expected = some names → SameNames versions names := by
  unfold versionsFromValue at h
  split at h
  · obtain ⟨items, -, h⟩ := exists_of_bind_eq_ok h
    obtain ⟨_, hvalid, ⟨⟩⟩ := exists_of_bind_eq_ok h
    exact validateVersions_eq_ok_iff.1 hvalid
  · cases h

/-- Whatever text is accepted, the release is valid. -/
theorem isValid_of_releaseFromJson {json : Json.Codec} {isOne : Text → Bool} {raw : Text}
    {release : StoredRelease} (h : releaseFromJson json isOne raw = .ok release) :
    release.IsValid := by
  unfold releaseFromJson at h
  split at h
  · cases h
  · rename_i fields _
    unfold releaseFromMetadata at h
    obtain ⟨-, h⟩ := ensure_bind_eq_ok.1 h
    split at h
    · obtain ⟨hbatch, h⟩ := ensure_bind_eq_ok.1 h
      obtain ⟨silver, hsilver, h⟩ := exists_of_bind_eq_ok h
      obtain ⟨gold, hgold, ⟨⟩⟩ := exists_of_bind_eq_ok h
      exact ⟨hbatch, (of_versionsFromValue hsilver).1, (of_versionsFromValue hgold).1,
        (of_versionsFromValue hgold).2 _ rfl⟩
    · cases h
  · cases h

/-- **Whatever a reader gets is valid.** -/
theorem isValid_of_latest {json : Json.Codec} {isOne : Text → Bool} {table : TableProperties}
    {release : StoredRelease} (h : latest json isOne table = .ok (some release)) :
    release.IsValid := by
  unfold latest at h
  split at h
  · cases h
  · obtain ⟨_, hrelease, ⟨⟩⟩ := exists_of_bind_eq_ok h
    exact isValid_of_releaseFromJson hrelease

/-! ### What is written -/

/-- Versions are written as plain values. -/
theorem plain_versionsJson (versions : Dict ℤ) : (versionsJson versions).Plain :=
  plain_dict versions fun _ ↦ by simp [Json.Plain]

/-- Their texts are the names. -/
theorem textsAll_versionsJson {P : Char → Prop} {versions : Dict ℤ}
    (h : ∀ name ∈ versions, ∀ c ∈ name, P c) : (versionsJson versions).TextsAll P := by
  rw [versionsJson, Json.TextsAll]
  refine List.forall_mem_map.2 fun item hitem ↦ ⟨h item.1 ?_, by simp [Json.TextsAll]⟩
  rw [Std.ExtTreeMap.mem_iff_isSome_getElem?,
    Std.ExtTreeMap.mem_toList_iff_getElem?_eq_some.1 hitem]
  rfl

/-- The metadata of a candidate are plain. -/
theorem plain_metadata (candidate : GoldCandidateManifest) : candidate.metadata.Plain := by
  have hsilver := plain_versionsJson candidate.release.silverVersions
  have hgold := plain_versionsJson candidate.release.goldVersions
  rw [GoldCandidateManifest.metadata, Json.Plain]
  refine ⟨by simp only [List.map_cons, List.map_nil]; decide, ?_⟩
  simp [Json.Plain, hsilver, hgold]

/-- The versions come back. -/
theorem versionsFromValue_versionsJson {versions : Dict ℤ} {fieldName : Text}
    {expected : Option (List Text)} (hvalid : ValidVersions versions)
    (hnames : ∀ names, expected = some names → SameNames versions names) :
    versionsFromValue fieldName expected (some (versionsJson versions).sortKeys) =
      .ok versions := by
  have hitems : (versions.toList.map fun item ↦ (item.1, (Json.int item.2).sortKeys)).mapM
      (checkedVersion fieldName) = .ok (versions.toList.map fun item ↦ item) := by
    refine mapM_map_eq_ok fun item hitem ↦ ?_
    rw [sortKeys_int]
    exact ensure_bind_eq_ok.2 ⟨hvalid item hitem, rfl⟩
  have hcheck : validateVersions versions fieldName expected = .ok () :=
    validateVersions_eq_ok_iff.2 ⟨hvalid, hnames⟩
  rw [versionsJson, sortKeys_dict versions fun n ↦ .int n]
  simp only [versionsFromValue, hitems, ok_bind, List.map_id', Dictionaries.ofList_toList, hcheck]
  rfl

/-- Counting the commit of the property keeps the names, and versions that are not negative. -/
theorem GoldCandidateManifest.Publishable.release {candidate : GoldCandidateManifest}
    (h : candidate.Publishable) :
    ValidVersions candidate.release.goldVersions ∧
      SameNames candidate.release.goldVersions goldTableNames := by
  constructor
  · refine validVersions_iff.2 fun name n hn ↦ ?_
    rw [GoldCandidateManifest.release, Std.ExtTreeMap.getElem?_modify] at hn
    split at hn
    · rename_i hfact
      obtain ⟨m, hm, rfl⟩ := Option.map_eq_some_iff.1 hn
      obtain ⟨hne, hpos⟩ := validVersions_iff.1 h.committedVersions _ m hm
      exact ⟨Std.LawfulEqCmp.eq_of_compare hfact ▸ hne, Int.le_add_one hpos⟩
    · exact validVersions_iff.1 h.committedVersions name n hn
  · refine sameNames_iff.2 fun name ↦ ?_
    rw [GoldCandidateManifest.release, Std.ExtTreeMap.mem_modify]
    exact sameNames_iff.1 h.goldTables name

/-- What a reader makes of the metadata of a candidate: its batch id is all that is checked then
and not before. -/
theorem releaseFromJson_metadata {json : Json.Codec} (hjson : json.Lawful) (isOne : Text → Bool)
    {candidate : GoldCandidateManifest} (h : candidate.Publishable) :
    releaseFromJson json isOne (json.dumps candidate.metadata.sortKeys) =
      if candidate.batchId = [] then .error .invalidBatchId else .ok candidate.release := by
  have hfield := (plain_metadata candidate).get?_sortKeys
  have hschema := (hfield "schema_version".toList).trans (congrArg some (sortKeys_int _))
  have hbatch := (hfield "batch_id".toList).trans (congrArg some (sortKeys_string _))
  have hsilver : versionsFromValue "silver_versions".toList none
      (candidate.metadata.sortKeys.get? "silver_versions".toList) =
        .ok candidate.release.silverVersions := by
    rw [hfield]
    exact versionsFromValue_versionsJson h.silverVersions fun _ hnames ↦ (by cases hnames)
  have hgold : versionsFromValue "gold_versions".toList (some goldTableNames)
      (candidate.metadata.sortKeys.get? "gold_versions".toList) =
        .ok candidate.release.goldVersions := by
    rw [hfield]
    refine versionsFromValue_versionsJson h.release.1 ?_
    rintro _ ⟨⟩
    exact h.release.2
  have hobject : releaseFromJson json isOne (json.dumps candidate.metadata.sortKeys) =
      releaseFromMetadata isOne candidate.metadata.sortKeys := by
    have hloads := hjson _ (plain_metadata candidate).sortKeys
    rw [GoldCandidateManifest.metadata, Json.sortKeys_object] at hloads ⊢
    rw [releaseFromJson, hloads]
  have hone : isReleaseSchemaVersion isOne (some (Json.int 1)) = true := rfl
  simp only [hobject, releaseFromMetadata, hschema, ensure_of hone, ok_bind, hbatch, hsilver, hgold]
  by_cases hempty : candidate.batchId = []
  · have hnot : ¬candidate.release.batchId ≠ [] := not_not.2 hempty
    rw [if_pos hempty, ensure_bind_of_not hnot]
  · have hne : candidate.release.batchId ≠ [] := hempty
    rw [if_neg hempty, ensure_of hne]
    rfl

/-! ### What is published -/

/-- The texts of a candidate that are free, its batch id and the names of its Silver tables, pass
through JSON and SQL as they are. -/
def GoldCandidateManifest.PrintsVerbatim (candidate : GoldCandidateManifest) : Prop :=
  (∀ c ∈ candidate.batchId, Verbatim c ∧ Json.Printed c) ∧
    ∀ name ∈ candidate.silverVersions.keys, ∀ c ∈ name, Verbatim c ∧ Json.Printed c

/-- The texts of the metadata print as they are, if the free ones do. -/
theorem textsAll_metadata {candidate : GoldCandidateManifest} (h : candidate.Publishable)
    (hprints : candidate.PrintsVerbatim) :
    candidate.metadata.TextsAll fun c ↦ Verbatim c ∧ Json.Printed c := by
  have hliteral {text : Text} : (text.all fun c ↦ Verbatim c ∧ Json.Printed c) = true →
      ∀ c ∈ text, Verbatim c ∧ Json.Printed c := List.all_iff_forall_prop.1
  have hgoldNames : ∀ name ∈ goldTableNames, ∀ c ∈ name, Verbatim c ∧ Json.Printed c := by
    have hall : ∀ name ∈ goldTableNames, (name.all fun c ↦ Verbatim c ∧ Json.Printed c) = true := by
      decide
    exact fun name hname ↦ hliteral (hall name hname)
  have hstatus : ∀ status : QualityStatus, ∀ c ∈ status.text, Verbatim c ∧ Json.Printed c := by
    rintro ⟨⟩
    exact hliteral (by decide)
  have hsilver : (versionsJson candidate.release.silverVersions).TextsAll
      fun c ↦ Verbatim c ∧ Json.Printed c :=
    textsAll_versionsJson fun name hname ↦ hprints.2 name (Std.ExtTreeMap.mem_keys.2 hname)
  have hgold : (versionsJson candidate.release.goldVersions).TextsAll
      fun c ↦ Verbatim c ∧ Json.Printed c :=
    textsAll_versionsJson fun name hname ↦
      hgoldNames name ((sameNames_iff.1 h.release.2 name).1 hname)
  have hchanged : (Json.array (candidate.changedTables.toList.map .string)).TextsAll
      fun c ↦ Verbatim c ∧ Json.Printed c := by
    rw [Json.TextsAll]
    refine List.forall_mem_map.2 fun name hname ↦ ?_
    rw [Json.TextsAll]
    have hknown := List.filter_eq_nil_iff.1 h.changedTables name hname
    exact hgoldNames name (by simpa using hknown)
  rw [GoldCandidateManifest.metadata, Json.TextsAll]
  simp only [List.forall_mem_cons, List.not_mem_nil, false_implies, implies_true, and_true,
    hchanged, hsilver, hgold, Json.TextsAll]
  exact ⟨hliteral (by decide), ⟨hliteral (by decide), hliteral (by decide)⟩,
    ⟨hliteral (by decide), hprints.1⟩, hliteral (by decide),
    ⟨hliteral (by decide), hstatus candidate.qualityStatus⟩, hliteral (by decide),
    hliteral (by decide)⟩

/-- A text without apostrophes is put between two of them. -/
theorem sqlLiteral_of_verbatim {value : Text} (h : ∀ c ∈ value, Verbatim c) :
    sqlLiteral value = '\x27' :: value ++ ['\x27'] := by
  have hsame : ∀ c ∈ value, (if c = '\x27' then ['\x27', '\x27'] else [c]) = [c] :=
    fun c hc ↦ if_neg (h c hc).1
  rw [sqlLiteral, List.flatMap_congr hsame, List.flatMap_singleton']

section Lawful

variable {json : Json.Codec} {sql : SqlReader}

/-- The statement sets the property to the text of the metadata. -/
theorem setDeltaTableProperty_metadata (hkeeps : json.KeepsCharacters) (hsql : sql.Lawful)
    (properties : Dict Text) {candidate : GoldCandidateManifest} (h : candidate.Publishable)
    (hprints : candidate.PrintsVerbatim) :
    setDeltaTableProperty sql (some properties) goldReleaseProperty
        (json.dumps candidate.metadata.sortKeys) =
      .ok (properties.insert goldReleaseProperty (json.dumps candidate.metadata.sortKeys)) := by
  have hkey : ∀ c ∈ goldReleaseProperty, Verbatim c := List.all_iff_forall_prop.1 (by decide)
  have hvalue : ∀ c ∈ json.dumps candidate.metadata.sortKeys, Verbatim c :=
    hkeeps Verbatim _ (List.all_iff_forall_prop.1 (by decide)) (plain_metadata candidate).sortKeys
      (textsAll_metadata h hprints).sortKeys
  simp only [setDeltaTableProperty, sqlLiteral_of_verbatim hkey, sqlLiteral_of_verbatim hvalue,
    hsql _ hkey, hsql _ hvalue]

/-- A candidate that can be published is. -/
theorem publish_of_publishable (hkeeps : json.KeepsCharacters) (hsql : sql.Lawful)
    (properties : Dict Text) {candidate : GoldCandidateManifest} (h : candidate.Publishable)
    (hprints : candidate.PrintsVerbatim) :
    publish json sql (some properties) candidate = .ok (candidate.release,
      properties.insert goldReleaseProperty (json.dumps candidate.metadata.sortKeys)) := by
  have hsilver : validateVersions candidate.silverVersions "silver_versions".toList none = .ok () :=
    validateVersions_eq_ok_iff.2 ⟨h.silverVersions, fun _ hnames ↦ (by cases hnames)⟩
  have hgold : validateVersions candidate.committedVersions "gold_versions".toList
      (some goldTableNames) = .ok () := by
    refine validateVersions_eq_ok_iff.2 ⟨h.committedVersions, ?_⟩
    rintro _ ⟨⟩
    exact h.goldTables
  simp only [publish, hsilver, hgold, ensure_of h.changedTables, ok_bind,
    setDeltaTableProperty_metadata hkeeps hsql properties h hprints]
  rfl

/-- Only such a candidate is. -/
theorem publishable_of_publish {table : TableProperties} {candidate : GoldCandidateManifest}
    {result : StoredRelease × Dict Text} (h : publish json sql table candidate = .ok result) :
    candidate.Publishable := by
  unfold publish at h
  obtain ⟨_, hsilver, h⟩ := exists_of_bind_eq_ok h
  obtain ⟨_, hgold, h⟩ := exists_of_bind_eq_ok h
  obtain ⟨hchanged, -⟩ := ensure_bind_eq_ok.1 h
  obtain ⟨hcommitted, hnames⟩ := validateVersions_eq_ok_iff.1 hgold
  exact ⟨(validateVersions_eq_ok_iff.1 hsilver).1, hcommitted, hnames _ rfl, hchanged⟩

end Lawful

/-! ### Runs -/

/-- The properties after an attempt to publish: an attempt that raises leaves them. -/
def afterPublish (json : Json.Codec) (sql : SqlReader) (properties : Dict Text)
    (candidate : GoldCandidateManifest) : Dict Text :=
  match publish json sql (some properties) candidate with
  | .ok result => result.2
  | .error _ => properties

/-- The properties after attempts one after the other. -/
def afterPublishes (json : Json.Codec) (sql : SqlReader) (properties : Dict Text)
    (candidates : List GoldCandidateManifest) : Dict Text :=
  candidates.foldl (afterPublish json sql) properties

section Runs

variable {json : Json.Codec} {sql : SqlReader} {candidate : GoldCandidateManifest}

/-- A candidate that can be published is in the property afterwards. -/
theorem afterPublish_of_publishable (hkeeps : json.KeepsCharacters) (hsql : sql.Lawful)
    (properties : Dict Text) (h : candidate.Publishable) (hprints : candidate.PrintsVerbatim) :
    afterPublish json sql properties candidate =
      properties.insert goldReleaseProperty (json.dumps candidate.metadata.sortKeys) := by
  rw [afterPublish, publish_of_publishable hkeeps hsql properties h hprints]

/-- Any other changes nothing. -/
theorem afterPublish_of_not_publishable (properties : Dict Text) (h : ¬candidate.Publishable) :
    afterPublish json sql properties candidate = properties := by
  unfold afterPublish
  split
  · exact absurd (publishable_of_publish ‹_›) h
  · rfl

/-- What a reader gets right after a publication. -/
theorem latest_insert (hjson : json.Lawful) (isOne : Text → Bool) (properties : Dict Text)
    (h : candidate.Publishable) :
    latest json isOne (some (properties.insert goldReleaseProperty
        (json.dumps candidate.metadata.sortKeys))) =
      if candidate.batchId = [] then .error .invalidBatchId else .ok (some candidate.release) := by
  rw [latest, Option.bind_some, Std.ExtTreeMap.getElem?_insert_self]
  dsimp only
  rw [releaseFromJson_metadata hjson isOne h]
  split <;> rfl

/-- **Readers get the last release that could be published.** Whatever candidates have been tried,
those that are refused change nothing; of the others the last is read, as it was published, unless
its batch id is empty, and then every reader raises. Whatever a reader accepts is a valid release,
with a version for each Gold table and no other. -/
theorem latest_afterPublishes (hjson : json.Lawful) (hkeeps : json.KeepsCharacters)
    (hsql : sql.Lawful) (isOne : Text → Bool) (properties : Dict Text)
    (candidates : List GoldCandidateManifest)
    (hprints : ∀ candidate ∈ candidates, candidate.PrintsVerbatim) :
    (latest json isOne (some (afterPublishes json sql properties candidates)) =
      match (candidates.filter fun candidate ↦ candidate.Publishable).getLast? with
      | none => latest json isOne (some properties)
      | some candidate =>
        if candidate.batchId = [] then .error .invalidBatchId else .ok (some candidate.release)) ∧
    ∀ release,
      latest json isOne (some (afterPublishes json sql properties candidates)) =
        .ok (some release) → release.IsValid := by
  refine ⟨?_, fun release ↦ isValid_of_latest⟩
  induction candidates using List.reverseRecOn with
  | nil => rfl
  | append_singleton candidates candidate ih =>
    obtain ⟨hinit, hlast⟩ := List.forall_mem_append.1 hprints
    have hcandidate := hlast candidate List.mem_cons_self
    rw [afterPublishes, List.foldl_append, List.foldl_cons, List.foldl_nil, List.filter_append]
    by_cases h : candidate.Publishable
    · have hfilter : [candidate].filter (fun candidate ↦ candidate.Publishable) = [candidate] := by
        simp [h]
      rw [afterPublish_of_publishable hkeeps hsql _ h hcandidate, latest_insert hjson isOne _ h,
        hfilter, List.getLast?_concat]
    · have hfilter : [candidate].filter (fun candidate ↦ candidate.Publishable) = [] := by
        simp [h]
      rw [afterPublish_of_not_publishable _ h, hfilter, List.append_nil]
      exact ih hinit

end Runs

/-! ### Two candidates -/

/-- A reader of literals without escapes. -/
def plainReader : SqlReader where
  literal text :=
    if text.head? = some '\x27' ∧ text.getLast? = some '\x27' then some text.tail.dropLast
    else none

/-- A reader without escapes gives every such text back. -/
theorem plainReader_lawful : plainReader.Lawful := by
  intro value _
  have hends : ('\x27' :: value ++ ['\x27']).head? = some '\x27' ∧
      ('\x27' :: value ++ ['\x27']).getLast? = some '\x27' := ⟨rfl, List.getLast?_concat⟩
  show (if _ then _ else _) = _
  rw [if_pos hends, List.cons_append, List.tail_cons, List.dropLast_concat]

/-- A candidate with some Gold tables at version 4. -/
def sampleCandidate (batchId : Text) (names : List Text) : GoldCandidateManifest where
  batchId := batchId
  changedTables := .ofList ["fact_sales".toList]
  committedVersions := .ofList (names.map fun name ↦ (name, (4 : ℤ)))
  silverVersions := .ofList [("orders".toList, (7 : ℤ))]
  qualityStatus := .passed

/-- The candidate can be published if it has the Gold tables and no others. -/
theorem publishable_sampleCandidate (batchId : Text) {names : List Text} :
    (sampleCandidate batchId names).Publishable ↔ ∀ name, name ∈ names ↔ name ∈ goldTableNames := by
  have hnames : SameNames (sampleCandidate batchId names).committedVersions goldTableNames ↔
      ∀ name, name ∈ names ↔ name ∈ goldTableNames := by
    refine sameNames_iff.trans (forall_congr' fun name ↦ iff_congr ?_ Iff.rfl)
    rw [sampleCandidate, mem_ofList, List.map_map]
    simp
  rw [← hnames]
  refine ⟨fun h ↦ h.goldTables, fun h ↦ ⟨validVersions_ofList (by decide), ?_, h, ?_⟩⟩
  · have hne : ∀ name ∈ goldTableNames, name ≠ [] := by decide
    exact validVersions_ofList (List.forall_mem_map.2 fun name hname ↦
      ⟨hne name ((hnames.1 h name).1 hname), Int.natCast_nonneg 4⟩)
  · refine unknownTables_eq_nil_iff.2 fun name hname ↦ ?_
    rw [sampleCandidate, Std.ExtTreeSet.mem_ofList, List.contains_iff_mem,
      List.mem_singleton] at hname
    rw [hname]
    decide

theorem printsVerbatim_sampleCandidate {batchId : Text}
    (h : ∀ c ∈ batchId, Verbatim c ∧ Json.Printed c) (names : List Text) :
    (sampleCandidate batchId names).PrintsVerbatim := by
  refine ⟨h, fun name hname ↦ ?_⟩
  rw [Std.ExtTreeMap.mem_keys, sampleCandidate, mem_ofList, List.map_singleton,
    List.mem_singleton] at hname
  rw [hname]
  exact List.all_iff_forall_prop.1 (by decide)

/-- A candidate without the facts is refused, and the one before it stays the release. -/
theorem latest_afterPublishes_refused :
    latest Json.compact (fun _ ↦ false) (some (afterPublishes Json.compact plainReader ∅
      [sampleCandidate "batch-1".toList goldTableNames,
        sampleCandidate "batch-2".toList ["dim_date".toList]])) =
      .ok (some (sampleCandidate "batch-1".toList goldTableNames).release) := by
  have hfirst : (sampleCandidate "batch-1".toList goldTableNames).Publishable :=
    (publishable_sampleCandidate _).2 fun _ ↦ Iff.rfl
  have hsecond : ¬(sampleCandidate "batch-2".toList ["dim_date".toList]).Publishable := by
    rw [publishable_sampleCandidate]
    exact fun h ↦ absurd ((h GoldTable.factSales.tableName).2 (by decide)) (by decide)
  have hprints : ∀ candidate ∈ [sampleCandidate "batch-1".toList goldTableNames,
      sampleCandidate "batch-2".toList ["dim_date".toList]], candidate.PrintsVerbatim := by
    simp only [List.forall_mem_cons, List.not_mem_nil, false_implies, implies_true, and_true]
    exact ⟨printsVerbatim_sampleCandidate (List.all_iff_forall_prop.1 (by decide)) _,
      printsVerbatim_sampleCandidate (List.all_iff_forall_prop.1 (by decide)) _⟩
  have hne : (sampleCandidate "batch-1".toList goldTableNames).batchId ≠ [] := by
    show "batch-1".toList ≠ []
    decide
  refine (latest_afterPublishes Json.compact_lawful Json.compact_keepsCharacters plainReader_lawful
    (fun _ ↦ false) ∅ _ hprints).1.trans ?_
  simp only [List.filter_cons, hfirst, hsecond, decide_true, decide_false, if_true, List.filter_nil]
  exact if_neg hne

end LakehousePipeline.GoldReleases
