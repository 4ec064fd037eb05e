import LakehousePipeline.Contracts
import LakehousePipeline.Library.Checks
import Mathlib.Data.List.DropRight

/-!
# Lakehouse configuration

`LakehouseConfig` and the part of `StreamingConfig` that names tables, with their validation, and
the four methods that turn a table name into a `TableReference`: a path under `base_path`, or a name
in a catalog whose storage lies under `external_root` if there is one.

Errors are the texts of the exceptions. A dictionary is the list of its items.
-/

namespace LakehousePipeline

open Checks

/-- `_IDENTIFIER`, which has to match the whole text. -/
def isIdentifier : Text → Bool
  | [] => false
  | c :: rest => (c.isAlpha || c = '_') && rest.all fun d ↦ d.isAlphanum || d = '_'

/-- `Field(min_length=1)` of an optional text. -/
def hasMinLength : Option Text → Bool
  | none => true
  | some value => !value.isEmpty

/-- `value.rstrip("/")`. -/
def rstripSlash (value : Text) : Text :=
  value.rdropWhile (· = '/')

/-- `"/".join(parts)`. -/
def joinPath (parts : List Text) : Text :=
  ['/'].intercalate parts

/-- The name of a table in a catalog. -/
def qualifiedName (catalog schema tableName : Text) : Text :=
  ['.'].intercalate [catalog, schema, tableName]

/-! ### Streaming -/

/-- What the validators of `StreamingConfig` read. -/
structure StreamingConfig where
  enabled : Bool := false
  bronzeTable : Text := "cdc_events".toList
  checkpointRoot : Option Text := none
  /-- `kafka is not None`. -/
  hasKafka : Bool := false
  /-- `silver.enabled`. -/
  silverEnabled : Bool := false

/-- `validate_bronze_table` and `validate_enabled_settings`, after the lengths of the fields. -/
def StreamingConfig.validate (config : StreamingConfig) : Except Text Unit := do
  ensure (config.bronzeTable ≠ [] ∧ hasMinLength config.checkpointRoot = true)
    "String should have at least 1 character".toList
  ensure (isIdentifier config.bronzeTable = true)
    "bronze_table must be a safe identifier".toList
  ensure (¬(config.enabled = true ∧ (config.hasKafka = false ∨ config.checkpointRoot = none)))
    "Enabled streaming requires kafka and checkpoint_root".toList
  ensure (¬(config.silverEnabled = true ∧ config.checkpointRoot = none))
    "Enabled streaming Silver requires streaming.checkpoint_root".toList

/-! ### Lakehouse -/

/-- `LakehouseConfig`. -/
structure LakehouseConfig where
  basePath : Option Text := none
  catalog : Option Text := none
  schemas : List (Text × Text) := []
  externalRoot : Option Text := none

/-- The layers of the lakehouse. -/
def layers : List Text :=
  ["bronze".toList, "silver".toList, "gold".toList]

/-- The part of `validate_storage_mode` that depends on the mode. -/
def LakehouseConfig.validateSchemas (config : LakehouseConfig) : Except Text Unit :=
  match config.catalog with
  | some catalog => do
    ensure (isIdentifier catalog = true)
      "lakehouse.catalog must be a safe Unity Catalog identifier".toList
    ensure (config.schemas.map Prod.fst ⊆ layers ∧ layers ⊆ config.schemas.map Prod.fst)
      "lakehouse.schemas must define exactly bronze, silver, and gold".toList
    forM config.schemas fun (layer, schema) ↦
      ensure (isIdentifier schema = true)
        ("Unsafe Unity Catalog schema for ".toList ++ layer ++ ": ".toList ++ schema)
  | none =>
    ensure (config.schemas = []) "lakehouse.schemas is only valid with lakehouse.catalog".toList

/-- `validate_storage_mode`, after the lengths of the fields. -/
def LakehouseConfig.validate (config : LakehouseConfig) : Except Text Unit := do
  ensure (hasMinLength config.basePath = true ∧ hasMinLength config.catalog = true ∧
      hasMinLength config.externalRoot = true)
    "String should have at least 1 character".toList
  ensure (config.basePath.isSome ≠ config.catalog.isSome)
    "Configure exactly one of lakehouse.base_path or lakehouse.catalog".toList
  config.validateSchemas
  ensure (config.externalRoot = none ∨ config.catalog ≠ none)
    "lakehouse.external_root requires lakehouse.catalog".toList

/-- `TableReference`. -/
structure TableReference where
  value : Text
  isCatalog : Bool
  storagePath : Option Text := none
  deriving DecidableEq

namespace LakehouseConfig

/-- `self.schemas[layer]`. -/
def schema (config : LakehouseConfig) (layer : Text) : Except Text Text :=
  match config.schemas.lookup layer with
  | some schema => pure schema
  | none => throw ("KeyError: ".toList ++ layer)

/-- `assert self.base_path is not None`. -/
def assertBasePath (config : LakehouseConfig) : Except Text Text :=
  match config.basePath with
  | some base => pure base
  | none => throw "AssertionError".toList

/-- A name a method is given has to be an identifier. -/
def checkName (value label : Text) : Except Text Unit :=
  ensure (isIdentifier value = true) ("Unsafe ".toList ++ label ++ ": ".toList ++ value)

/-- `table_reference`. -/
def tableReference (config : LakehouseConfig) (layer tableName : Text) :
    Except Text TableReference := do
  ensure (layer ∈ layers) ("Unsupported lakehouse layer: ".toList ++ layer)
  checkName layer "layer".toList
  checkName tableName "table_name".toList
  let folders := layer :: (if layer = "bronze".toList then ["batch".toList] else []) ++ [tableName]
  match config.catalog with
  | some catalog =>
    return {
      value := qualifiedName catalog (← config.schema layer) tableName
      isCatalog := true
      storagePath := config.externalRoot.map fun root ↦ joinPath (rstripSlash root :: folders) }
  | none =>
    return { value := joinPath (rstripSlash (← config.assertBasePath) :: folders)
             isCatalog := false }

/-- `raw_cdc_bronze_reference`. -/
def rawCdcBronzeReference (config : LakehouseConfig) (tableName : Text) :
    Except Text TableReference := do
  checkName tableName "table_name".toList
  match config.catalog with
  | some catalog =>
    return {
      value := qualifiedName catalog (← config.schema "bronze".toList) tableName
      isCatalog := true
      storagePath := config.externalRoot.map fun root ↦
        joinPath [rstripSlash root, "bronze".toList, tableName] }
  | none =>
    return { value := joinPath [rstripSlash (← config.assertBasePath), "bronze".toList, tableName]
             isCatalog := false }

/-- `streaming_typed_bronze_reference`. -/
def streamingTypedBronzeReference (config : LakehouseConfig) (tableName : Text) :
    Except Text TableReference := do
  checkName tableName "table_name".toList
  match config.catalog with
  | some catalog =>
    return {
      value := qualifiedName catalog (← config.schema "bronze".toList)
        ("cdc_typed_".toList ++ tableName)
      isCatalog := true
      storagePath := config.externalRoot.map fun root ↦
        joinPath [rstripSlash root, "bronze".toList, "streaming".toList, tableName] }
  | none =>
    return {
      value := joinPath
        [rstripSlash (← config.assertBasePath), "bronze".toList, "streaming".toList, tableName]
      isCatalog := false }

/-- `coordination_reference`. -/
def coordinationReference (config : LakehouseConfig) : Except Text TableReference := do
  match config.catalog with
  | some catalog =>
    return {
      value := qualifiedName catalog (← config.schema "silver".toList)
        "_pipeline_writer_locks".toList
      isCatalog := true
      storagePath := config.externalRoot.map fun root ↦
        joinPath [rstripSlash root, "_control".toList, "pipeline_writer_locks".toList] }
  | none =>
    return {
      value := joinPath
        [rstripSlash (← config.assertBasePath), "_control".toList, "pipeline_writer_locks".toList]
      isCatalog := false }

end LakehouseConfig

end LakehousePipeline
