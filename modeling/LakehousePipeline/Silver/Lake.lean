import LakehousePipeline.Silver.ChangeHistory
import LakehousePipeline.Silver.Convergence
import LakehousePipeline.Library.TableLog

/-!
# Silver as a versioned store

The Silver tables as one family, each with its Delta log: a commit has the rows of the table after
it and its change data feed, and its version is the number of commits before it. The change history
tables are append-only, so a commit there is the list of appended rows.

Delta computes the feed of a merge from the rows the merge changed (`mergeFeed`): the row inserted,
or the images before and after an update. Every merge is a commit. A commit names its data pipeline
in its metadata, and maintenance names none: the version of a table is the one of its last data
commit.
-/

namespace LakehousePipeline

/-- The columns of a Silver table. -/
def SilverColumns : SilverTable → Type
  | .appUsers => UserColumns
  | .userAddresses => AddressColumns
  | .shops => ShopColumns
  | .categories => CategoryColumns
  | .products => ProductColumns
  | .productVariants => VariantColumns
  | .vouchers => VoucherColumns
  | .orders => OrderColumns
  | .orderItems => OrderItemColumns
  | .orderVouchers => OrderVoucherColumns
  | .payments => PaymentColumns
  | .shipments => ShipmentColumns

instance : (t : SilverTable) → DecidableEq (SilverColumns t)
  | .appUsers => inferInstanceAs (DecidableEq UserColumns)
  | .userAddresses => inferInstanceAs (DecidableEq AddressColumns)
  | .shops => inferInstanceAs (DecidableEq ShopColumns)
  | .categories => inferInstanceAs (DecidableEq CategoryColumns)
  | .products => inferInstanceAs (DecidableEq ProductColumns)
  | .productVariants => inferInstanceAs (DecidableEq VariantColumns)
  | .vouchers => inferInstanceAs (DecidableEq VoucherColumns)
  | .orders => inferInstanceAs (DecidableEq OrderColumns)
  | .orderItems => inferInstanceAs (DecidableEq OrderItemColumns)
  | .orderVouchers => inferInstanceAs (DecidableEq OrderVoucherColumns)
  | .payments => inferInstanceAs (DecidableEq PaymentColumns)
  | .shipments => inferInstanceAs (DecidableEq ShipmentColumns)

/-- The name of a Silver table. -/
def SilverTable.name : SilverTable → Text
  | .appUsers => "app_users".toList
  | .userAddresses => "user_addresses".toList
  | .shops => "shops".toList
  | .categories => "categories".toList
  | .products => "products".toList
  | .productVariants => "product_variants".toList
  | .vouchers => "vouchers".toList
  | .orders => "orders".toList
  | .orderItems => "order_items".toList
  | .orderVouchers => "order_vouchers".toList
  | .payments => "payments".toList
  | .shipments => "shipments".toList

/-- `materialize_change_history`. -/
def SilverTable.hasChangeHistory : SilverTable → Bool
  | .appUsers | .shops | .categories | .products | .productVariants => true
  | _ => false

/-! ### Commits -/

/-- `_change_type` of the change data feed. -/
inductive ChangeType
  | insert
  | updatePreimage
  | updatePostimage
  | delete
  deriving DecidableEq, Repr

/-- A row of the change data feed. -/
structure ChangeRow (P : Type) where
  /-- `_change_type`. -/
  changeType : ChangeType
  /-- The image of the row. -/
  row : SilverRow ℤ P
  deriving DecidableEq

/-- `SILVER_DATA_PIPELINES`. -/
inductive SilverPipeline
  /-- "bronze_to_silver". -/
  | bronzeToSilver
  /-- "cdc_to_silver". -/
  | cdcToSilver
  deriving DecidableEq, Repr

/-- A commit of a Silver table. -/
structure SilverCommit (P : Type) where
  /-- The rows after the commit, tombstones included. -/
  rows : List (SilverRow ℤ P)
  /-- The change data feed of the commit. -/
  feed : List (ChangeRow P)
  /-- The pipeline in the metadata of the commit. -/
  pipeline : Option SilverPipeline := some .bronzeToSilver

section Feed

variable {P : Type} [DecidableEq P]

/-- The feed of a merge: inserted rows, and both images of updated rows. -/
def mergeFeed (before after : List (SilverRow ℤ P)) : List (ChangeRow P) :=
  after.flatMap fun row ↦
    match MergeInto.lookup (fun r : SilverRow ℤ P ↦ r.key) row.key before with
    | none => [⟨.insert, row⟩]
    | some old => if old = row then [] else [⟨.updatePreimage, old⟩, ⟨.updatePostimage, row⟩]

end Feed

/-- The feed of an overwrite. -/
def overwriteFeed {P : Type} (before after : List (SilverRow ℤ P)) : List (ChangeRow P) :=
  before.map (fun row ↦ ⟨.delete, row⟩) ++ after.map fun row ↦ ⟨.insert, row⟩

/-- The rows `read_table` shows: tombstones are hidden. -/
def visibleRows {P : Type} (rows : List (SilverRow ℤ P)) : List (BusinessRow ℤ P) :=
  (rows.filter fun row ↦ !row.isDeleted).map SilverRow.business

theorem nodup_key_visibleRows {P : Type} {rows : List (SilverRow ℤ P)}
    (h : (rows.map fun row ↦ row.key).Nodup) :
    ((visibleRows rows).map fun row ↦ row.key).Nodup := by
  rw [visibleRows, List.map_map]
  exact h.sublist (List.filter_sublist.map _)

/-! ### The store -/

/-- The Delta logs of the Silver tables and of the change histories. -/
structure SilverLake where
  /-- The commits of the current tables. -/
  tables : (t : SilverTable) → List (SilverCommit (SilverColumns t))
  /-- The appends to the change histories. -/
  histories : (t : SilverTable) → List (List (HistoryRow ℤ (SilverColumns t)))

namespace SilverLake

variable (lake : SilverLake) (t : SilverTable)

/-- `latest_delta_pipeline_commit`: the version of the last data commit. A lookup that finds none
among the last hundred raises, and so does the run that asks, before it has written anything. -/
def version : ℕ :=
  TableLog.lastVersionWhere (fun commit ↦ commit.pipeline.isSome) (lake.tables t)

/-- The rows of a table, tombstones included. -/
def currentRows : List (SilverRow ℤ (SilverColumns t)) :=
  ((lake.tables t).getLast?.map fun commit ↦ commit.rows).getD []

/-- The rows a reader of a table sees. -/
def rows : List (BusinessRow ℤ (SilverColumns t)) :=
  visibleRows (lake.currentRows t)

/-- `_read_changes`: the feed of the commits from `start` to `stop`. -/
def readChanges (start stop : ℕ) : List (ChangeRow (SilverColumns t)) :=
  (((lake.tables t).take (stop + 1)).drop start).flatMap fun commit ↦ commit.feed

/-- The change history of a table. -/
def history : List (HistoryRow ℤ (SilverColumns t)) :=
  (lake.histories t).flatten

/-- The version of a change history. -/
def historyVersion : ℕ :=
  (lake.histories t).length - 1

/-- The rows appended to a change history after a version. -/
def historySince (version : ℕ) : List (HistoryRow ℤ (SilverColumns t)) :=
  ((lake.histories t).drop (version + 1)).flatten

end SilverLake

/-! ### A Silver step -/

/-- The cleaning of the business columns, table by table. -/
abbrev Cleaning := (t : SilverTable) → SilverColumns t → SilverColumns t

/-- A piece of events of one table: appended to its change history and merged into its current rows.
The result is `none` when the merge fails. -/
def silverStep (fns : SparkFunctions) (clean : Cleaning) (lake : SilverLake) (t : SilverTable)
    (piece : SilverPiece ℤ (SilverColumns t)) : Option SilverLake :=
  (mergePiece fns (clean t) (lake.currentRows t) piece).map fun rows ↦
    { tables := Function.update lake.tables t
        (lake.tables t ++ [{
          rows := rows
          feed := mergeFeed (lake.currentRows t) rows
          pipeline := some (if piece.isCdc then .cdcToSilver else .bronzeToSilver) }])
      histories :=
        if t.hasChangeHistory then
          Function.update lake.histories t
            (lake.histories t ++ [changeHistory fns t.name (clean t) piece.events])
        else lake.histories }

end LakehousePipeline
