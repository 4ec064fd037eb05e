import LakehousePipeline.Config.Lakehouse
import LakehousePipeline.Library.JoinedText

/-!
# Where the tables lie

The logical tables of the pipeline and the references the configuration gives them. A reference is
made of the schema and name of the table in a catalog, and of the folders of its storage under a
root; the four methods assemble these differently, and `reference_eq_ok` says once what they give.

Only one name is free, that of the raw CDC table, and the three schemas. `NamesApart` lists what may
go wrong with them, and the tables have different names and separate storage exactly where none of
it does (`references_apart_iff`).

## What is compared

A reference is a text, and texts are what Spark is handed. `TableReference.Apart` asks for different
names, and for locations neither of which is the other or lies inside it: Delta would take the files
of an inner table for its own. Containment is a matter of whole path segments
(`JoinedText.Inside`), so `orders` does not contain `orders_change_history`.

Names are compared as they stand. A catalog that folds letter case identifies more of them, and what
it identifies is then a matter of the spelling of the raw CDC table and the schemas alone, as all
other names are lower case.

## How the comparison goes

* Validation makes schemas and names identifiers, without dots and slashes. So a qualified name
  determines its three parts, and a path determines its list of folders (`joinPath_apart_iff`):
  `LakehouseConfig.resolve_apart_iff` turns statements about texts into statements about parts.
* The fixed tables are a list, `fixedTables`, and their names and folders are constants. That these
  do not collide is decided for all pairs at once (`name_fixedTables`, `folders_fixedTables`); the
  one repetition is that Batch Bronze tables are named like the Silver tables.
* What remains are the pairs with the raw CDC table, and the pairs of a Bronze and a Silver table in
  one schema. These are the fields of `NamesApart`, and each of them is necessary: where it fails,
  two tables share a name or one folder holds the other.
-/

namespace LakehousePipeline

open Checks

/-! ### Logical tables -/

/-- The name of a table in `BRONZE_TABLES`, `TYPED_CDC_TABLES` and `SILVER_TABLES`. -/
def SilverTable.tableName (t : SilverTable) : Text :=
  String.toList <| match t with
  | .appUsers => "app_users"
  | .userAddresses => "user_addresses"
  | .shops => "shops"
  | .categories => "categories"
  | .products => "products"
  | .productVariants => "product_variants"
  | .vouchers => "vouchers"
  | .orders => "orders"
  | .orderItems => "order_items"
  | .orderVouchers => "order_vouchers"
  | .payments => "payments"
  | .shipments => "shipments"

/-- The name of a table in `GOLD_TABLES`. -/
def GoldTable.tableName (t : GoldTable) : Text :=
  String.toList <| match t with
  | .dimCustomer => "dim_customer"
  | .dimDate => "dim_date"
  | .dimTime => "dim_time"
  | .dimLocation => "dim_location"
  | .dimShop => "dim_shop"
  | .dimCategory => "dim_category"
  | .dimProduct => "dim_product"
  | .dimPromotion => "dim_promotion"
  | .dimPayment => "dim_payment"
  | .dimShipping => "dim_shipping"
  | .factSales => "fact_sales"

/-- `materialize_change_history` of `SILVER_TABLES`. -/
def SilverTable.materializeChangeHistory : SilverTable → Bool
  | .appUsers | .shops | .categories | .products | .productVariants => true
  | _ => false

/-- `silver_change_history_table_name`. -/
def silverChangeHistoryTableName (tableName : Text) : Text :=
  tableName ++ "_change_history".toList

/-- The tables the pipeline keeps. -/
inductive LogicalTable
  | batchBronze (t : SilverTable)
  | rawCdc
  | typedCdc (t : SilverTable)
  | quarantine
  | silver (t : SilverTable)
  | changeHistory (t : { t : SilverTable // t.materializeChangeHistory })
  | goldReconcileQueue
  | gold (t : GoldTable)
  | goldScd2Checkpoint
  | coordinationLock
  deriving DecidableEq

/-- The sections of the configuration that name tables, as their validators accept them. -/
structure TableConfig where
  lakehouse : LakehouseConfig
  streaming : StreamingConfig
  lakehouse_valid : lakehouse.validate = .ok ()
  streaming_valid : streaming.validate = .ok ()

/-- The reference of a table, by the method and with the name its readers and writers use. -/
def TableConfig.reference (config : TableConfig) : LogicalTable → Except Text TableReference
  | .batchBronze t => config.lakehouse.tableReference "bronze".toList t.tableName
  | .rawCdc => config.lakehouse.rawCdcBronzeReference config.streaming.bronzeTable
  | .typedCdc t => config.lakehouse.streamingTypedBronzeReference t.tableName
  | .quarantine => config.lakehouse.streamingTypedBronzeReference "quarantine".toList
  | .silver t => config.lakehouse.tableReference "silver".toList t.tableName
  | .changeHistory t =>
    config.lakehouse.tableReference "silver".toList (silverChangeHistoryTableName t.1.tableName)
  | .goldReconcileQueue =>
    config.lakehouse.tableReference "silver".toList "gold_reconcile_queue".toList
  | .gold t => config.lakehouse.tableReference "gold".toList t.tableName
  | .goldScd2Checkpoint =>
    config.lakehouse.tableReference "gold".toList "gold_scd2_checkpoint".toList
  | .coordinationLock => config.lakehouse.coordinationReference

/-! ### What the methods give -/

/-- The layer whose schema a table is in. -/
def LogicalTable.layer : LogicalTable → Text
  | .batchBronze _ | .rawCdc | .typedCdc _ | .quarantine => "bronze".toList
  | .silver _ | .changeHistory _ | .goldReconcileQueue | .coordinationLock => "silver".toList
  | .gold _ | .goldScd2Checkpoint => "gold".toList

/-- The name of a table in its schema. -/
def LogicalTable.name (raw : Text) : LogicalTable → Text
  | .batchBronze t | .silver t => t.tableName
  | .rawCdc => raw
  | .typedCdc t => "cdc_typed_".toList ++ t.tableName
  | .quarantine => "cdc_typed_quarantine".toList
  | .changeHistory t => silverChangeHistoryTableName t.1.tableName
  | .goldReconcileQueue => "gold_reconcile_queue".toList
  | .gold t => t.tableName
  | .goldScd2Checkpoint => "gold_scd2_checkpoint".toList
  | .coordinationLock => "_pipeline_writer_locks".toList

/-- The folders of a table under the storage root. -/
def LogicalTable.folders (raw : Text) : LogicalTable → List Text
  | .batchBronze t => ["bronze".toList, "batch".toList, t.tableName]
  | .rawCdc => ["bronze".toList, raw]
  | .typedCdc t => ["bronze".toList, "streaming".toList, t.tableName]
  | .quarantine => ["bronze".toList, "streaming".toList, "quarantine".toList]
  | .silver t => ["silver".toList, t.tableName]
  | .changeHistory t => ["silver".toList, silverChangeHistoryTableName t.1.tableName]
  | .goldReconcileQueue => ["silver".toList, "gold_reconcile_queue".toList]
  | .gold t => ["gold".toList, t.tableName]
  | .goldScd2Checkpoint => ["gold".toList, "gold_scd2_checkpoint".toList]
  | .coordinationLock => ["_control".toList, "pipeline_writer_locks".toList]

/-- The schema of a layer. -/
def LakehouseConfig.schemaName (config : LakehouseConfig) (layer : Text) : Text :=
  (config.schemas.lookup layer).getD []

/-- The reference of a table by its layer, its name and its folders. -/
def LakehouseConfig.resolve (config : LakehouseConfig) (layer name : Text) (folders : List Text) :
    TableReference :=
  match config.catalog with
  | some catalog =>
    { value := qualifiedName catalog (config.schemaName layer) name
      isCatalog := true
      storagePath := config.externalRoot.map fun root ↦ joinPath (rstripSlash root :: folders) }
  | none =>
    { value := joinPath (rstripSlash (config.basePath.getD []) :: folders), isCatalog := false }

namespace LakehouseConfig

variable {config : LakehouseConfig}

/-- Where there is a catalog, it is an identifier, and every layer has a schema that is one. -/
theorem schemas_of_valid {catalog : Text} (hcatalog : config.catalog = some catalog)
    (h : config.validateSchemas = .ok ()) :
    isIdentifier catalog = true ∧ ∀ layer ∈ layers,
      config.schema layer = .ok (config.schemaName layer) ∧
        isIdentifier (config.schemaName layer) = true := by
  simp only [validateSchemas, hcatalog, ensure_bind_eq_ok, forM_eq_ok, ensure_eq_ok] at h
  obtain ⟨hid, ⟨-, hkeys⟩, hvalid⟩ := h
  refine ⟨hid, fun layer hlayer ↦ ?_⟩
  obtain ⟨item, hitem, rfl⟩ := List.mem_map.1 (hkeys hlayer)
  have hsome : (config.schemas.lookup item.1).isSome :=
    List.lookup_isSome_iff.2 ⟨item, hitem, beq_self_eq_true _⟩
  obtain ⟨schema, hschema⟩ := Option.isSome_iff_exists.1 hsome
  obtain ⟨before, after, hsplit, -⟩ := List.lookup_eq_some_iff.1 hschema
  have hmem : (item.1, schema) ∈ config.schemas := by simp [hsplit]
  simp only [LakehouseConfig.schema, schemaName, hschema, Option.getD_some]
  exact ⟨rfl, hvalid _ hmem⟩

/-- What validation leaves: a base path, or a catalog with a schema for every layer. -/
theorem cases_of_valid (h : config.validate = .ok ()) :
    (config.catalog = none ∧ ∃ base, config.basePath = some base) ∨
    ∃ catalog, config.catalog = some catalog ∧ isIdentifier catalog = true ∧
      ∀ layer ∈ layers, config.schema layer = .ok (config.schemaName layer) ∧
        isIdentifier (config.schemaName layer) = true := by
  rw [validate, ensure_bind_eq_ok, ensure_bind_eq_ok, bind_eq_ok] at h
  obtain ⟨-, hmode, ⟨⟩, hschemas, -⟩ := h
  cases hcatalog : config.catalog with
  | none =>
    refine Or.inl ⟨rfl, ?_⟩
    simpa [hcatalog, Option.isSome_iff_exists, Option.ne_none_iff_exists'] using hmode
  | some catalog => exact Or.inr ⟨catalog, rfl, schemas_of_valid hcatalog hschemas⟩

/-- What `table_reference` gives: the Batch Bronze tables have a folder of their own in their layer.
-/
theorem tableReference_eq_ok (h : config.validate = .ok ()) {layer tableName : Text}
    (hlayer : layer ∈ layers) (hname : isIdentifier tableName = true) :
    config.tableReference layer tableName = .ok (config.resolve layer tableName
      (layer :: (if layer = "bronze".toList then ["batch".toList] else []) ++ [tableName])) := by
  have hlayerName : isIdentifier layer = true := by
    have hall : ∀ l ∈ layers, isIdentifier l = true := by decide
    exact hall layer hlayer
  simp only [tableReference, checkName, ensure_of hlayer, ensure_of hlayerName, ensure_of hname,
    ok_bind, resolve]
  rcases cases_of_valid h with ⟨hcatalog, base, hbase⟩ | ⟨catalog, hcatalog, -, hschemas⟩
  · simp only [hcatalog, assertBasePath, hbase]
    rfl
  · simp only [hcatalog, (hschemas layer hlayer).1]
    rfl

/-- What `raw_cdc_bronze_reference` gives: the raw CDC table lies directly in the folder of its
layer. -/
theorem rawCdcBronzeReference_eq_ok (h : config.validate = .ok ()) {tableName : Text}
    (hname : isIdentifier tableName = true) :
    config.rawCdcBronzeReference tableName =
      .ok (config.resolve "bronze".toList tableName ["bronze".toList, tableName]) := by
  simp only [rawCdcBronzeReference, checkName, ensure_of hname, ok_bind, resolve]
  rcases cases_of_valid h with ⟨hcatalog, base, hbase⟩ | ⟨catalog, hcatalog, -, hschemas⟩
  · simp only [hcatalog, assertBasePath, hbase]
    rfl
  · simp only [hcatalog, (hschemas "bronze".toList (by decide)).1]
    rfl

/-- What `streaming_typed_bronze_reference` gives: the name has a prefix, the folder has not. -/
theorem streamingTypedBronzeReference_eq_ok (h : config.validate = .ok ()) {tableName : Text}
    (hname : isIdentifier tableName = true) :
    config.streamingTypedBronzeReference tableName =
      .ok (config.resolve "bronze".toList ("cdc_typed_".toList ++ tableName)
        ["bronze".toList, "streaming".toList, tableName]) := by
  simp only [streamingTypedBronzeReference, checkName, ensure_of hname, ok_bind, resolve]
  rcases cases_of_valid h with ⟨hcatalog, base, hbase⟩ | ⟨catalog, hcatalog, -, hschemas⟩
  · simp only [hcatalog, assertBasePath, hbase]
    rfl
  · simp only [hcatalog, (hschemas "bronze".toList (by decide)).1]
    rfl

/-- What `coordination_reference` gives: the lock table is named in the Silver schema and stored
beside the layers. -/
theorem coordinationReference_eq_ok (h : config.validate = .ok ()) :
    config.coordinationReference =
      .ok (config.resolve "silver".toList "_pipeline_writer_locks".toList
        ["_control".toList, "pipeline_writer_locks".toList]) := by
  simp only [coordinationReference, resolve]
  rcases cases_of_valid h with ⟨hcatalog, base, hbase⟩ | ⟨catalog, hcatalog, -, hschemas⟩
  · simp only [hcatalog, assertBasePath, hbase]
    rfl
  · simp only [hcatalog, (hschemas "silver".toList (by decide)).1]
    rfl

end LakehouseConfig

/-- The validator of the streaming section makes the free name an identifier. -/
theorem isIdentifier_bronzeTable (config : TableConfig) :
    isIdentifier config.streaming.bronzeTable = true := by
  have h := config.streaming_valid
  rw [StreamingConfig.validate, ensure_bind_eq_ok, ensure_bind_eq_ok] at h
  exact h.2.1

/-- Every table has a reference. -/
theorem TableConfig.reference_eq_ok (config : TableConfig) (t : LogicalTable) :
    config.reference t = .ok (config.lakehouse.resolve t.layer
      (t.name config.streaming.bronzeTable) (t.folders config.streaming.bronzeTable)) := by
  have hvalid := config.lakehouse_valid
  have hsilver : ∀ t : SilverTable, isIdentifier t.tableName = true := by
    intro t
    cases t <;> decide
  cases t with
  | batchBronze t => exact LakehouseConfig.tableReference_eq_ok hvalid (by decide) (hsilver t)
  | rawCdc =>
    exact LakehouseConfig.rawCdcBronzeReference_eq_ok hvalid (isIdentifier_bronzeTable config)
  | typedCdc t => exact LakehouseConfig.streamingTypedBronzeReference_eq_ok hvalid (hsilver t)
  | quarantine => exact LakehouseConfig.streamingTypedBronzeReference_eq_ok hvalid (by decide)
  | silver t => exact LakehouseConfig.tableReference_eq_ok hvalid (by decide) (hsilver t)
  | changeHistory t =>
    have hhistory : ∀ t : SilverTable,
        isIdentifier (silverChangeHistoryTableName t.tableName) = true := by
      intro t
      cases t <;> decide
    exact LakehouseConfig.tableReference_eq_ok hvalid (by decide) (hhistory t.1)
  | goldReconcileQueue => exact LakehouseConfig.tableReference_eq_ok hvalid (by decide) (by decide)
  | gold t =>
    refine LakehouseConfig.tableReference_eq_ok hvalid (by decide) ?_
    cases t <;> decide
  | goldScd2Checkpoint => exact LakehouseConfig.tableReference_eq_ok hvalid (by decide) (by decide)
  | coordinationLock => exact LakehouseConfig.coordinationReference_eq_ok hvalid

/-- Identifiers have none of the other characters, the separators of paths and names among them. -/
theorem not_mem_of_isIdentifier {value : Text} {c : Char} (hc : c.isAlphanum = false)
    (hc' : c ≠ '_') (h : isIdentifier value = true) : c ∉ value := by
  have halpha : c.isAlpha = false := by
    rw [Char.isAlphanum, Bool.or_eq_false_iff] at hc
    exact hc.1
  cases value with
  | nil => exact List.not_mem_nil
  | cons d rest =>
    simp only [isIdentifier, Bool.and_eq_true, Bool.or_eq_true, decide_eq_true_eq,
      List.all_eq_true] at h
    rintro hmem
    rcases List.mem_cons.1 hmem with rfl | hmem
    · simp_all
    · simpa [hc, hc'] using h.2 c hmem

/-- All tables but the raw CDC table: their names are fixed. -/
def fixedTables : List LogicalTable :=
  silverTables.map .batchBronze ++ silverTables.map .typedCdc ++ [.quarantine] ++
    silverTables.map .silver ++
    silverTables.filterMap
      (fun t ↦ if h : t.materializeChangeHistory then some (.changeHistory ⟨t, h⟩) else none) ++
    [.goldReconcileQueue] ++ goldTables.map .gold ++ [.goldScd2Checkpoint, .coordinationLock]

/-- The list of the fixed tables is complete. -/
theorem mem_fixedTables {t : LogicalTable} (h : t ≠ .rawCdc) : t ∈ fixedTables := by
  cases t with
  | rawCdc => exact absurd rfl h
  | changeHistory t =>
    have ht : LogicalTable.changeHistory t ∈ silverTables.filterMap
        (fun t ↦ if h : t.materializeChangeHistory then some (.changeHistory ⟨t, h⟩) else none) :=
      List.mem_filterMap.2 ⟨t.1, mem_silverTables _, by simp [t.2]⟩
    simp [fixedTables, ht]
  | _ => simp [fixedTables, mem_silverTables, mem_goldTables]

/-- What holds of all pairs of the list holds of two different fixed tables. -/
theorem forall_of_pairwise_fixedTables {R : LogicalTable → LogicalTable → Prop}
    (hsymm : ∀ t u, R t u → R u t) (h : fixedTables.Pairwise R) {t u : LogicalTable}
    (ht : t ≠ .rawCdc) (hu : u ≠ .rawCdc) (htu : t ≠ u) : R t u :=
  have : Std.Symm R := ⟨hsymm⟩
  h.forall (mem_fixedTables ht) (mem_fixedTables hu) htu

/-- Their names repeat only from the Bronze layer to the Silver layer. -/
theorem name_fixedTables : fixedTables.Pairwise fun t u ↦
    t.name [] = u.name [] →
      (t.layer = "bronze".toList ∧ u.layer = "silver".toList ∨
        t.layer = "silver".toList ∧ u.layer = "bronze".toList) := by
  decide +kernel

/-- Their folders do not lie in each other. -/
theorem folders_fixedTables : fixedTables.Pairwise fun t u ↦
    ¬(t.folders [] <+: u.folders [] ∨ u.folders [] <+: t.folders []) := by
  decide +kernel

/-! ### Tables that stay apart -/

/-- The path a table is stored at, unless its catalog chooses it. -/
def TableReference.location (r : TableReference) : Option Text :=
  if r.isCatalog then r.storagePath else some r.value

/-- Two references that share nothing: different names, and different storage, neither of which
lies inside the other. -/
structure TableReference.Apart (r s : TableReference) : Prop where
  value_ne : r.value ≠ s.value
  location_ne : ∀ p ∈ r.location, ∀ q ∈ s.location,
    p ≠ q ∧ ¬JoinedText.Inside '/' p q ∧ ¬JoinedText.Inside '/' q p

/-- The configuration chooses where tables are stored: under a base path or an external root. -/
def LakehouseConfig.HasPaths (config : LakehouseConfig) : Prop :=
  config.catalog = none ∨ config.externalRoot ≠ none

/-- Equality or containment of paths under a root is one list of folders beginning with the
other. -/
theorem joinPath_apart_iff (root : Text) {ps qs : List Text} (hps : ∀ p ∈ ps, '/' ∉ p)
    (hqs : ∀ q ∈ qs, '/' ∉ q) :
    (joinPath (root :: ps) ≠ joinPath (root :: qs) ∧
        ¬JoinedText.Inside '/' (joinPath (root :: ps)) (joinPath (root :: qs)) ∧
        ¬JoinedText.Inside '/' (joinPath (root :: qs)) (joinPath (root :: ps))) ↔
      ¬(ps <+: qs ∨ qs <+: ps) := by
  have hsplit : ∀ {xs ys : List Text},
      xs <+: ys ↔ xs = ys ∨ ∃ rest, rest ≠ [] ∧ ys = xs ++ rest := by
    intro xs ys
    constructor
    · rintro ⟨rest, rfl⟩
      by_cases hrest : rest = []
      · exact Or.inl (by simp [hrest])
      · exact Or.inr ⟨rest, hrest, rfl⟩
    · rintro (rfl | ⟨rest, -, rfl⟩)
      · exact List.prefix_rfl
      · exact List.prefix_append _ _
  simp only [joinPath, ne_eq, JoinedText.intercalate_cons_inj root hps hqs,
    JoinedText.inside_intercalate_cons root hps hqs,
    JoinedText.inside_intercalate_cons root hqs hps]
  rw [hsplit, hsplit]
  constructor
  · rintro ⟨hne, hin, hin'⟩ ((heq | hqs) | (heq | hps))
    exacts [hne heq, hin' hqs, hne heq.symm, hin hps]
  · intro hnot
    exact ⟨fun heq ↦ hnot (Or.inl (Or.inl heq)), fun hps ↦ hnot (Or.inr (Or.inr hps)),
      fun hqs ↦ hnot (Or.inl (Or.inr hqs))⟩

/-- When two tables of a configuration are apart: in a catalog their schemas or names differ, and
where they have paths neither list of folders begins with the other. -/
theorem LakehouseConfig.resolve_apart_iff {config : LakehouseConfig} (h : config.validate = .ok ())
    {layer layer' name name' : Text} {folders folders' : List Text} (hlayer : layer ∈ layers)
    (hlayer' : layer' ∈ layers) (hname : isIdentifier name = true)
    (hname' : isIdentifier name' = true) (hfolders : ∀ p ∈ folders, isIdentifier p = true)
    (hfolders' : ∀ p ∈ folders', isIdentifier p = true) :
    (config.resolve layer name folders).Apart (config.resolve layer' name' folders') ↔
      (config.catalog ≠ none → config.schemaName layer ≠ config.schemaName layer' ∨ name ≠ name') ∧
      (config.HasPaths → ¬(folders <+: folders' ∨ folders' <+: folders)) := by
  have hslash : ∀ {ps : List Text}, (∀ p ∈ ps, isIdentifier p = true) → ∀ p ∈ ps, '/' ∉ p :=
    fun hps p hp ↦ not_mem_of_isIdentifier (by decide) (by decide) (hps p hp)
  have hpaths := fun root : Text ↦ joinPath_apart_iff root (hslash hfolders) (hslash hfolders')
  rcases cases_of_valid h with ⟨hcatalog, base, hbase⟩ | ⟨catalog, hcatalog, -, hschemas⟩
  · simp only [resolve, hcatalog, HasPaths, ne_eq, not_true_eq_false, false_implies, true_and,
      true_or, true_implies, ← hpaths (rstripSlash (config.basePath.getD []))]
    constructor
    · rintro ⟨hne, hloc⟩
      exact hloc _ rfl _ rfl
    · intro hloc
      refine ⟨hloc.1, ?_⟩
      rintro p ⟨⟩ q ⟨⟩
      exact hloc
  · have hdot : ∀ {v : Text}, isIdentifier v = true → '.' ∉ v :=
      fun hv ↦ not_mem_of_isIdentifier (by decide) (by decide) hv
    have hvalue : qualifiedName catalog (config.schemaName layer) name ≠
        qualifiedName catalog (config.schemaName layer') name' ↔
          config.schemaName layer ≠ config.schemaName layer' ∨ name ≠ name' := by
      rw [qualifiedName, qualifiedName, ne_eq, JoinedText.intercalate_cons_inj catalog
        (by simp [hdot (hschemas layer hlayer).2, hdot hname])
        (by simp [hdot (hschemas layer' hlayer').2, hdot hname'])]
      simp [imp_iff_not_or]
    have hlocation : (∀ p ∈ (config.resolve layer name folders).location,
        ∀ q ∈ (config.resolve layer' name' folders').location,
          p ≠ q ∧ ¬JoinedText.Inside '/' p q ∧ ¬JoinedText.Inside '/' q p) ↔
        (config.externalRoot ≠ none → ¬(folders <+: folders' ∨ folders' <+: folders)) := by
      simp only [TableReference.location, resolve, hcatalog, if_true]
      cases hroot : config.externalRoot with
      | none => simp
      | some root => simpa using hpaths (rstripSlash root)
    have hcases : (config.resolve layer name folders).Apart
        (config.resolve layer' name' folders') ↔ _ ∧ _ :=
      ⟨fun ⟨hne, hloc⟩ ↦ ⟨hne, hloc⟩, fun ⟨hne, hloc⟩ ↦ ⟨hne, hloc⟩⟩
    rw [hcases, hlocation]
    simp only [resolve, hcatalog, hvalue, HasPaths]
    simp

/-- Every table is in one of the layers. -/
theorem LogicalTable.layer_mem (t : LogicalTable) : t.layer ∈ layers := by
  have hlayers : "bronze".toList ∈ layers ∧ "silver".toList ∈ layers ∧ "gold".toList ∈ layers := by
    decide
  cases t with
  | batchBronze _ | rawCdc | typedCdc _ | quarantine => exact hlayers.1
  | silver _ | changeHistory _ | goldReconcileQueue | coordinationLock => exact hlayers.2.1
  | gold _ | goldScd2Checkpoint => exact hlayers.2.2

/-- A fixed name does not depend on that of the raw CDC table. -/
theorem LogicalTable.name_eq {t : LogicalTable} (h : t ≠ .rawCdc) (raw : Text) :
    t.name raw = t.name [] := by
  cases t <;> first | rfl | exact absurd rfl h

/-- Fixed folders do not depend on the name of the raw CDC table. -/
theorem LogicalTable.folders_eq {t : LogicalTable} (h : t ≠ .rawCdc) (raw : Text) :
    t.folders raw = t.folders [] := by
  cases t <;> first | rfl | exact absurd rfl h

/-- The fixed names and folders are identifiers. -/
theorem isIdentifier_fixedTables : ∀ t ∈ fixedTables,
    isIdentifier (t.name []) = true ∧ ∀ p ∈ t.folders [], isIdentifier p = true := by
  decide +kernel

/-- All names are identifiers. -/
theorem LogicalTable.isIdentifier_name {raw : Text} (h : isIdentifier raw = true)
    (t : LogicalTable) : isIdentifier (t.name raw) = true := by
  by_cases ht : t = .rawCdc
  · rw [ht]
    exact h
  · rw [t.name_eq ht]
    exact (isIdentifier_fixedTables t (mem_fixedTables ht)).1

/-- All folders are identifiers. -/
theorem LogicalTable.isIdentifier_folders {raw : Text} (h : isIdentifier raw = true)
    (t : LogicalTable) : ∀ p ∈ t.folders raw, isIdentifier p = true := by
  by_cases ht : t = .rawCdc
  · rw [ht]
    exact List.forall_mem_cons.2 ⟨by decide, List.forall_mem_singleton.2 h⟩
  · rw [t.folders_eq ht]
    exact (isIdentifier_fixedTables t (mem_fixedTables ht)).2

/-- The names a configuration chooses collide with nothing. -/
structure TableConfig.NamesApart (config : TableConfig) : Prop where
  /-- The raw CDC table is not named like a folder of Bronze tables. -/
  raw_not_folder : config.lakehouse.HasPaths →
    config.streaming.bronzeTable ≠ "batch".toList ∧
      config.streaming.bronzeTable ≠ "streaming".toList
  /-- Batch Bronze and Silver tables have the same names, in different schemas. -/
  schemas_ne : config.lakehouse.catalog ≠ none →
    config.lakehouse.schemaName "bronze".toList ≠ config.lakehouse.schemaName "silver".toList
  /-- The raw CDC table is not named like another Bronze table. -/
  raw_not_bronze : config.lakehouse.catalog ≠ none →
    config.streaming.bronzeTable ≠ "cdc_typed_quarantine".toList ∧
      ∀ t : SilverTable, config.streaming.bronzeTable ≠ t.tableName ∧
        config.streaming.bronzeTable ≠ "cdc_typed_".toList ++ t.tableName
  /-- Nor like a Gold table in the same schema. -/
  raw_not_gold : config.lakehouse.catalog ≠ none →
    config.lakehouse.schemaName "bronze".toList = config.lakehouse.schemaName "gold".toList →
    config.streaming.bronzeTable ≠ "gold_scd2_checkpoint".toList ∧
      ∀ t : GoldTable, config.streaming.bronzeTable ≠ t.tableName

section

variable {config : TableConfig}

/-- Two tables are apart, by their names and folders. -/
theorem exists_reference_apart_iff (t u : LogicalTable) :
    (∃ r s, config.reference t = .ok r ∧ config.reference u = .ok s ∧ r.Apart s) ↔
      (config.lakehouse.catalog ≠ none →
        config.lakehouse.schemaName t.layer ≠ config.lakehouse.schemaName u.layer ∨
          t.name config.streaming.bronzeTable ≠ u.name config.streaming.bronzeTable) ∧
      (config.lakehouse.HasPaths →
        ¬(t.folders config.streaming.bronzeTable <+: u.folders config.streaming.bronzeTable ∨
          u.folders config.streaming.bronzeTable <+: t.folders config.streaming.bronzeTable)) := by
  have hraw := isIdentifier_bronzeTable config
  rw [config.reference_eq_ok t, config.reference_eq_ok u,
    ← LakehouseConfig.resolve_apart_iff config.lakehouse_valid t.layer_mem u.layer_mem
      (t.isIdentifier_name hraw) (u.isIdentifier_name hraw) (t.isIdentifier_folders hraw)
      (u.isIdentifier_folders hraw)]
  constructor
  · rintro ⟨r, s, ⟨⟩, ⟨⟩, hapart⟩
    exact hapart
  · exact fun hapart ↦ ⟨_, _, rfl, rfl, hapart⟩

namespace TableConfig.NamesApart

variable {t u : LogicalTable}

/-- The raw CDC table has a name of its own. -/
theorem raw_name_ne (h : config.NamesApart) (hcatalog : config.lakehouse.catalog ≠ none)
    (hu : u ≠ .rawCdc)
    (hschema : config.lakehouse.schemaName "bronze".toList = config.lakehouse.schemaName u.layer) :
    config.streaming.bronzeTable ≠ u.name config.streaming.bronzeTable := by
  have hbronze := h.raw_not_bronze hcatalog
  cases u with
  | batchBronze t => exact (hbronze.2 t).1
  | rawCdc => exact absurd rfl hu
  | typedCdc t => exact (hbronze.2 t).2
  | quarantine => exact hbronze.1
  | silver _ | changeHistory _ | goldReconcileQueue | coordinationLock =>
    exact absurd hschema (h.schemas_ne hcatalog)
  | gold t => exact (h.raw_not_gold hcatalog hschema).2 t
  | goldScd2Checkpoint => exact (h.raw_not_gold hcatalog hschema).1

/-- The raw CDC table has a folder of its own. -/
theorem raw_folders (h : config.NamesApart) (hpaths : config.lakehouse.HasPaths)
    (hu : u ≠ .rawCdc) :
    ¬(["bronze".toList, config.streaming.bronzeTable] <+: u.folders config.streaming.bronzeTable ∨
      u.folders config.streaming.bronzeTable <+:
        ["bronze".toList, config.streaming.bronzeTable]) := by
  obtain ⟨hbatch, hstreaming⟩ := h.raw_not_folder hpaths
  have hsilver : "bronze".toList ≠ "silver".toList := by decide
  have hgold : "bronze".toList ≠ "gold".toList := by decide
  have hcontrol : "bronze".toList ≠ "_control".toList := by decide
  cases u with
  | rawCdc => exact absurd rfl hu
  | batchBronze _ | typedCdc _ | quarantine =>
    simp only [LogicalTable.folders, List.cons_prefix_cons, not_or]
    exact ⟨fun hp ↦ absurd hp.2.1 ‹_›, fun hp ↦ absurd hp.2.1.symm ‹_›⟩
  | silver _ | changeHistory _ | goldReconcileQueue | gold _ | goldScd2Checkpoint
  | coordinationLock =>
    simp only [LogicalTable.folders, List.cons_prefix_cons, not_or]
    exact ⟨fun hp ↦ absurd hp.1 ‹_›, fun hp ↦ absurd hp.1.symm ‹_›⟩

/-- Two fixed names are the same in different schemas only. -/
theorem name_ne (h : config.NamesApart) (hcatalog : config.lakehouse.catalog ≠ none)
    (ht : t ≠ .rawCdc) (hu : u ≠ .rawCdc) (htu : t ≠ u) :
    config.lakehouse.schemaName t.layer ≠ config.lakehouse.schemaName u.layer ∨
      t.name [] ≠ u.name [] := by
  have hpairwise := forall_of_pairwise_fixedTables
    (fun v w hvw heq ↦ (hvw heq.symm).symm.imp And.symm And.symm) name_fixedTables ht hu htu
  by_cases hname : t.name [] = u.name []
  · left
    rcases hpairwise hname with ⟨htl, hul⟩ | ⟨htl, hul⟩
    · rw [htl, hul]
      exact h.schemas_ne hcatalog
    · rw [htl, hul]
      exact (h.schemas_ne hcatalog).symm
  · exact Or.inr hname

end TableConfig.NamesApart

end

/-- All tables are apart exactly where the chosen names are. -/
theorem references_apart_iff (config : TableConfig) :
    (∀ t u : LogicalTable, t ≠ u →
      ∃ r s, config.reference t = .ok r ∧ config.reference u = .ok s ∧ r.Apart s) ↔
        config.NamesApart := by
  simp only [exists_reference_apart_iff]
  constructor
  · intro h
    refine ⟨fun hpaths ↦ ⟨?_, ?_⟩, fun hcatalog ↦ ?_, fun hcatalog ↦ ⟨?_, fun t ↦ ⟨?_, ?_⟩⟩,
      fun hcatalog hschema ↦ ⟨?_, fun t ↦ ?_⟩⟩
    · intro hraw
      refine (h .rawCdc (.batchBronze .orders) nofun).2 hpaths (Or.inl ?_)
      simp [LogicalTable.folders, hraw]
    · intro hraw
      refine (h .rawCdc (.typedCdc .orders) nofun).2 hpaths (Or.inl ?_)
      simp [LogicalTable.folders, hraw]
    · exact ((h (.batchBronze .orders) (.silver .orders) nofun).1 hcatalog).resolve_right
        fun hne ↦ hne rfl
    · exact ((h .rawCdc .quarantine nofun).1 hcatalog).resolve_left fun hne ↦ hne rfl
    · exact ((h .rawCdc (.batchBronze t) nofun).1 hcatalog).resolve_left fun hne ↦ hne rfl
    · exact ((h .rawCdc (.typedCdc t) nofun).1 hcatalog).resolve_left fun hne ↦ hne rfl
    · exact ((h .rawCdc .goldScd2Checkpoint nofun).1 hcatalog).resolve_left
        fun hne ↦ hne hschema
    · exact ((h .rawCdc (.gold t) nofun).1 hcatalog).resolve_left fun hne ↦ hne hschema
  · intro h t u htu
    by_cases ht : t = .rawCdc
    · subst ht
      refine ⟨fun hcatalog ↦ ?_, fun hpaths ↦ h.raw_folders hpaths htu.symm⟩
      exact not_or_of_imp fun hschema ↦ h.raw_name_ne hcatalog htu.symm hschema
    by_cases hu : u = .rawCdc
    · subst hu
      refine ⟨fun hcatalog ↦ ?_, fun hpaths ↦ ?_⟩
      · exact not_or_of_imp fun hschema ↦ (h.raw_name_ne hcatalog htu hschema.symm).symm
      · exact fun hor ↦ h.raw_folders hpaths htu hor.symm
    rw [t.name_eq ht, u.name_eq hu, t.folders_eq ht, u.folders_eq hu]
    refine ⟨fun hcatalog ↦ h.name_ne hcatalog ht hu htu, fun _ ↦ ?_⟩
    exact forall_of_pairwise_fixedTables (fun v w hvw hor ↦ hvw hor.symm) folders_fixedTables
      ht hu htu

/-- A configuration whose raw CDC table is named like the Batch Bronze table of the orders. -/
def rawOrdersConfig : TableConfig where
  lakehouse :=
    { catalog := some "catalog".toList
      schemas := [("bronze".toList, "bronze".toList), ("silver".toList, "silver".toList),
        ("gold".toList, "gold".toList)] }
  streaming := { bronzeTable := "orders".toList }
  lakehouse_valid := by decide
  streaming_valid := by decide

/-- There the raw events and the Batch Bronze orders are one table. -/
theorem rawOrdersConfig_collides :
    (∃ r, rawOrdersConfig.reference .rawCdc = .ok r ∧
      rawOrdersConfig.reference (.batchBronze .orders) = .ok r) ∧
    ¬∀ t u : LogicalTable, t ≠ u → ∃ r s, rawOrdersConfig.reference t = .ok r ∧
      rawOrdersConfig.reference u = .ok s ∧ r.Apart s := by
  have hraw : rawOrdersConfig.reference .rawCdc =
      rawOrdersConfig.reference (.batchBronze .orders) := by decide +kernel
  constructor
  · exact ⟨_, rawOrdersConfig.reference_eq_ok .rawCdc,
      hraw ▸ rawOrdersConfig.reference_eq_ok .rawCdc⟩
  · intro h
    obtain ⟨r, s, hr, hs, hapart⟩ := h .rawCdc (.batchBronze .orders) nofun
    rw [hraw, hs] at hr
    cases hr
    exact hapart.value_ne rfl

end LakehousePipeline
