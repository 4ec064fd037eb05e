import LakehousePipeline.Library.MergeInto
import LakehousePipeline.Spark

/-!
# `LakehouseAdapter.upsert_table`

Silver and Gold tables are written by one merge. Its clauses depend on the columns of the table only
through a few groups of them (the merge keys, the compared columns, the columns that start with `_`,
the sequence columns), so a table is described by what the merge does with each group
(`TableColumns`) and `upsertTable` is written once.

`delete_mode` is `"soft"` at every call site, so the hard-delete branch is left out.

## The merge as clauses

`upsert_table` builds a Delta merge from its arguments, clause by clause, and so does `upsertMerge`;
a clause that is not built has a condition that is never true. What Delta makes of clauses is the
library's (`MergeInto`), which also decides when the merge fails, with two source rows for one row
of the target.

All the clauses compare and keep the merge keys (`keyed_upsertMerge`), so the library's rules for
keyed merges apply: with distinct keys in the source the merge succeeds, and what is under a key
afterwards depends on the row and on the change with that key alone. Most later modules use one of
three instances of this:

* with sequence columns, for the current rows of Silver;
* with delete keys and without sequence columns, for the tables of Gold (`upsertTable_scope`);
* with insert clauses only, for `append_new_rows` (`appendNewRows_eq_some`).
-/

namespace LakehousePipeline

/-! ### The newer-than predicate -/

/-- `source IS NOT NULL AND (target IS NULL OR source > target)`. -/
def columnGreater (source target : Option ℤ) : Bool :=
  match source, target with
  | none, _ => false
  | some _, none => true
  | some s, some t => t < s

/-- `_lexicographic_newer_condition` on the values of the sequence columns. -/
def lexicographicNewer : List (Option ℤ) → List (Option ℤ) → Bool
  | s :: source, t :: target =>
    columnGreater s t || (s == t && lexicographicNewer source target)
  | _, _ => false

/-- The values of the sequence columns as a sort key, null lowest in each column. -/
def sequenceKey (columns : List (Option ℤ)) : List (WithBot ℤ) :=
  columns.map descNullsLast

/-- One column is greater where null is lowest. -/
theorem columnGreater_iff (s t : Option ℤ) :
    columnGreater s t = true ↔ descNullsLast t < descNullsLast s := by
  cases s with
  | none => exact iff_of_false Bool.false_ne_true (not_lt_bot (a := descNullsLast t))
  | some s =>
    cases t with
    | none => exact iff_of_true rfl (WithBot.bot_lt_coe s)
    | some t =>
      show decide (t < s) = true ↔ (t : WithBot ℤ) < (s : WithBot ℤ)
      rw [decide_eq_true_iff, WithBot.coe_lt_coe]

/-- **The predicate is the strict order of the sort keys.** -/
theorem lexicographicNewer_iff {source target : List (Option ℤ)}
    (hlen : source.length = target.length) :
    lexicographicNewer source target = true ↔ sequenceKey target < sequenceKey source := by
  induction source generalizing target with
  | nil =>
    cases target with
    | nil => simp [lexicographicNewer, sequenceKey]
    | cons t target => simp at hlen
  | cons s source ih =>
    cases target with
    | nil => simp at hlen
    | cons t target =>
      have hlen' : source.length = target.length := by simpa using hlen
      have hkeys : sequenceKey (t :: target) < sequenceKey (s :: source) ↔
          descNullsLast t < descNullsLast s ∨
            descNullsLast t = descNullsLast s ∧ sequenceKey target < sequenceKey source :=
        List.cons_lt_cons_iff
      rw [hkeys, lexicographicNewer, Bool.or_eq_true, Bool.and_eq_true, columnGreater_iff,
        ih hlen', beq_iff_eq]
      refine or_congr_right (and_congr_left fun _ ↦ ?_)
      exact eq_comm

/-! ### Tables -/

/-- How a merge sees the columns of a table. -/
structure TableColumns (R κ : Type) where
  /-- The merge keys. -/
  key : R → κ
  /-- `target <=> source` on the compared columns. -/
  sameCompared : R → R → Bool
  /-- The target row with all columns of the source row but `created_at`. -/
  update : R → R → R
  /-- The target row with the columns of the source row whose names start with `_`. -/
  updateMetadata : R → R → R
  /-- `coalesce(_is_deleted, false)`; no row is deleted in a table without the column. -/
  isDeleted : R → Bool
  /-- The values of the sequence columns, if any are given. -/
  sequence : Option (R → List (Option ℤ))
  /-- An update keeps the key. -/
  key_update : ∀ target source, key target = key source → key (update target source) = key source
  /-- A metadata update keeps the key. -/
  key_updateMetadata : ∀ target source, key (updateMetadata target source) = key target

/-- The optional arguments of `upsert_table`. -/
structure UpsertOptions (κ : Type) where
  /-- `delete_keys`. -/
  deleteKeys : Option (List κ)
  /-- `delete_not_matched_by_source`. -/
  deleteNotMatchedBySource : Bool
  /-- `source_is_nonempty`. -/
  sourceIsNonempty : Bool
  /-- `preserve_target_on_soft_delete`. -/
  preserveTargetOnSoftDelete : Bool

/-- The default arguments. -/
def UpsertOptions.default (κ : Type) : UpsertOptions κ where
  deleteKeys := none
  deleteNotMatchedBySource := false
  sourceIsNonempty := false
  preserveTargetOnSoftDelete := false

/-- A row of the merge source: a row to write, or a key with `_delete` set and all else null. -/
inductive Change (R κ : Type)
  | row (row : R)
  | delete (key : κ)

section Merge

variable {R κ : Type} [DecidableEq κ] (columns : TableColumns R κ) (options : UpsertOptions κ)

/-- The merge keys of a change. -/
def Change.key : Change R κ → κ
  | .row r => columns.key r
  | .delete k => k

/-- `newer`; null sequence columns are never newer. -/
def isNewer (target : R) (source : Change R κ) : Bool :=
  match columns.sequence, source with
  | none, _ => true
  | some sequence, .row source => lexicographicNewer (sequence source) (sequence target)
  | some _, .delete _ => false

/-- `WHEN MATCHED AND newer AND source._delete THEN DELETE`. -/
def deleteClause : MergeInto.Clause R (Change R κ) where
  condition target source :=
    match source with
    | .row _ => false
    | .delete _ => isNewer columns target source
  action _ _ := none

/-- `WHEN MATCHED AND newer AND source._is_deleted THEN UPDATE` of the metadata columns. -/
def softDeleteClause : MergeInto.Clause R (Change R κ) where
  condition target source :=
    match source with
    | .row row => isNewer columns target source && columns.isDeleted row
    | .delete _ => false
  action target source :=
    match source with
    | .row row => some (columns.updateMetadata target row)
    | .delete _ => some target

/-- Whether the source row is to be written at all (`not_delete`). -/
def isWritten (row : R) : Bool :=
  !(options.preserveTargetOnSoftDelete && columns.isDeleted row)

/-- `WHEN MATCHED AND not_delete AND newer AND NOT equality THEN UPDATE`. -/
def updateClause : MergeInto.Clause R (Change R κ) where
  condition target source :=
    match source with
    | .row row => isWritten columns options row && isNewer columns target source &&
        !columns.sameCompared target row
    | .delete _ => false
  action target source :=
    match source with
    | .row row => some (columns.update target row)
    | .delete _ => some target

/-- The merge that `upsert_table` builds. With `delete_keys` the insert clause only excludes the
deletes. -/
def upsertMerge : MergeInto.Merge R (Change R κ) where
  on target source := columns.key target = Change.key columns source
  matched :=
    (if options.deleteKeys.isSome then [deleteClause columns] else []) ++
      (if options.preserveTargetOnSoftDelete then [softDeleteClause columns] else []) ++
      [updateClause columns options]
  notMatched source :=
    match source with
    | .row row =>
      if options.deleteKeys.isSome || isWritten columns options row then some row else none
    | .delete _ => none
  deleteNotMatchedBySource := options.deleteNotMatchedBySource

/-- The merge source: the rows and the de-duplicated delete keys. -/
def upsertChanges (df : List R) : List (Change R κ) :=
  df.map .row ++ (options.deleteKeys.getD []).dedup.map .delete

/-- The rows of a table after `upsert_table`, and whether it wrote them. -/
structure UpsertResult (R : Type) where
  /-- The rows of the table. -/
  rows : List R
  /-- The return value. -/
  written : Bool

/-- `upsert_table`: a missing table is created with the source rows, and nothing happens when there
is no source row. The result is `none` when the merge fails. -/
def upsertTable (target : Option (List R)) (df : List R) : Option (UpsertResult R) :=
  match target with
  | none => some { rows := df, written := true }
  | some rows =>
    if !options.sourceIsNonempty && (upsertChanges options df).isEmpty then
      some { rows := rows, written := false }
    else
      ((upsertMerge columns options).execute rows (upsertChanges options df)).map fun rows ↦
        { rows := rows, written := true }

variable {options} in
/-- There is nothing to merge without a source row and a delete key. -/
theorem isEmpty_upsertChanges {df : List R} : (upsertChanges options df).isEmpty = true ↔
    df = [] ∧ options.deleteKeys.getD [] = [] := by
  rw [List.isEmpty_iff, upsertChanges, List.append_eq_nil_iff, List.map_eq_nil_iff,
    List.map_eq_nil_iff, List.dedup_eq_nil]

/-- A table that is not written keeps its rows. -/
theorem rows_of_not_written {rows df : List R} {result : UpsertResult R}
    (h : upsertTable columns options (some rows) df = some result)
    (hwritten : result.written = false) : result.rows = rows := by
  rw [upsertTable] at h
  split at h
  · rw [← Option.some.inj h]
  · obtain ⟨merged, -, rfl⟩ := Option.map_eq_some_iff.1 h
    cases hwritten

/-! ### The merge key by key -/

/-- **The merge of `upsert_table` compares and keeps the merge keys.** -/
theorem keyed_upsertMerge :
    (upsertMerge columns options).Keyed columns.key (Change.key columns) where
  on_iff t s := decide_eq_true_iff
  key_action c hc t s t' hkey haction := by
    have hcases : c = deleteClause columns ∨ c = softDeleteClause columns ∨
        c = updateClause columns options := by
      unfold upsertMerge at hc
      rcases List.mem_append.1 hc with hc | hc
      · rcases List.mem_append.1 hc with hc | hc <;> split at hc <;> simp_all
      · simp_all
    rcases hcases with rfl | rfl | rfl
    · cases haction
    · cases s with
      | row row =>
        rw [← Option.some.inj haction, columns.key_updateMetadata]
        exact hkey
      | delete k => rwa [← Option.some.inj haction]
    · cases s with
      | row row =>
        rw [← Option.some.inj haction]
        exact columns.key_update t row hkey
      | delete k => rwa [← Option.some.inj haction]
  key_notMatched s t h := by
    cases s with
    | row row =>
      simp only [upsertMerge, Option.ite_none_right_eq_some, Option.some.injEq] at h
      rw [← h.2]
      rfl
    | delete k => cases h

/-- A matched row: the metadata update of a soft delete, or the update, or nothing. -/
theorem applyMatched_row (target source : R) :
    (upsertMerge columns options).applyMatched target (.row source) =
      if options.preserveTargetOnSoftDelete && (isNewer columns target (.row source) &&
          columns.isDeleted source) then
        some (columns.updateMetadata target source)
      else if isWritten columns options source && isNewer columns target (.row source) &&
          !columns.sameCompared target source then
        some (columns.update target source)
      else some target := by
  unfold MergeInto.Merge.applyMatched upsertMerge
  cases hdel : options.deleteKeys.isSome <;> cases hpre : options.preserveTargetOnSoftDelete <;>
    cases hsoft : isNewer columns target (.row source) && columns.isDeleted source <;>
    cases hupd : isWritten columns options source && isNewer columns target (.row source) &&
      !columns.sameCompared target source <;>
    simp [deleteClause, softDeleteClause, updateClause, hsoft, hupd]

/-- A matched delete key, where no sequence columns are given. -/
theorem applyMatched_delete (target : R) (k : κ) (hseq : columns.sequence = none)
    (hdel : options.deleteKeys.isSome = true) :
    (upsertMerge columns options).applyMatched target (.delete k) = none := by
  unfold MergeInto.Merge.applyMatched upsertMerge
  simp [deleteClause, isNewer, hseq, hdel]

/-- The change of a key is its row. -/
theorem lookup_map_row (df : List R) (k : κ) :
    MergeInto.lookup (Change.key columns) k (df.map .row) =
      (MergeInto.lookup columns.key k df).map .row := by
  rw [MergeInto.lookup, List.find?_map]
  rfl

/-- The source of a key: its row, else the delete key. -/
theorem lookup_upsertChanges (df : List R) (k : κ) :
    MergeInto.lookup (Change.key columns) k (upsertChanges options df) =
      ((MergeInto.lookup columns.key k df).map Change.row).or
        (if k ∈ options.deleteKeys.getD [] then some (.delete k) else none) := by
  set deleteKeys := options.deleteKeys.getD [] with hdeleteKeys
  have hdelete : MergeInto.lookup (Change.key columns) k
      (deleteKeys.dedup.map Change.delete) =
        if k ∈ deleteKeys then some (.delete k) else none := by
    rw [MergeInto.lookup, List.find?_map]
    have hcond : ((fun c : Change R κ ↦ decide (Change.key columns c = k)) ∘
        Change.delete) = fun j ↦ decide (j = k) := rfl
    rw [hcond]
    split
    · rename_i hk
      have hfind : deleteKeys.dedup.find? (fun j ↦ decide (j = k)) = some k := by
        cases hfind : deleteKeys.dedup.find? (fun j ↦ decide (j = k)) with
        | none =>
          exact absurd (decide_eq_true rfl)
            (List.find?_eq_none.1 hfind k (List.mem_dedup.2 hk))
        | some j =>
          have hj := List.find?_some hfind
          rw [of_decide_eq_true hj]
      rw [hfind]
      rfl
    · rename_i hk
      have hfind : deleteKeys.dedup.find? (fun j ↦ decide (j = k)) = none := by
        refine List.find?_eq_none.2 fun j hj hjk ↦ hk ?_
        rw [← of_decide_eq_true hjk]
        exact List.mem_dedup.1 hj
      rw [hfind]
      rfl
  show MergeInto.lookup _ k (df.map Change.row ++ deleteKeys.dedup.map Change.delete) = _
  rw [MergeInto.lookup_append, hdelete, lookup_map_row]

/-- The changes have distinct keys if the rows do and no delete key is one of theirs. -/
theorem nodup_key_upsertChanges {df : List R} (hdf : (df.map columns.key).Nodup)
    (hdisjoint : ∀ row ∈ df, columns.key row ∉ options.deleteKeys.getD []) :
    ((upsertChanges options df).map (Change.key columns)).Nodup := by
  set deleteKeys := options.deleteKeys.getD [] with hdeleteKeys
  show ((df.map Change.row ++ deleteKeys.dedup.map Change.delete).map _).Nodup
  rw [List.map_append, List.map_map, List.map_map, List.nodup_append]
  refine ⟨hdf, (List.map_id _).symm ▸ List.nodup_dedup _, ?_⟩
  intro a ha b hb hab
  obtain ⟨row, hrow, rfl⟩ := List.mem_map.1 ha
  obtain ⟨k, hk, rfl⟩ := List.mem_map.1 hb
  have hkey : columns.key row = k := hab
  exact hdisjoint row hrow (hkey ▸ List.mem_dedup.1 hk)

section Unsequenced

variable {columns options} (hsequence : columns.sequence = none)
  (hpreserve : options.preserveTargetOnSoftDelete = false)

include hsequence hpreserve

/-- What becomes of a row where no sequence columns are given: it is updated by the source row of
its key, if that differs in a compared column; else it goes if its key is to be deleted or no source
row may be missing. -/
theorem mergeTarget_upsert (df : List R) (t : R) :
    (upsertMerge columns options).mergeTarget (upsertChanges options df) t =
      match MergeInto.lookup columns.key (columns.key t) df with
      | some s => some (if columns.sameCompared t s then t else columns.update t s)
      | none =>
        if columns.key t ∈ options.deleteKeys.getD [] then none
        else if options.deleteNotMatchedBySource then none else some t := by
  rw [MergeInto.Merge.mergeTarget, MergeInto.find?_on (keyed_upsertMerge columns options),
    lookup_upsertChanges]
  rcases MergeInto.lookup columns.key (columns.key t) df with - | s
  · rcases Decidable.em (columns.key t ∈ options.deleteKeys.getD []) with hk | hk
    · have hsome : options.deleteKeys.isSome = true := by
        rcases hkeys : options.deleteKeys with - | keys
        · simp [hkeys] at hk
        · rfl
      simp only [Option.map_none, Option.none_or, if_pos hk]
      exact applyMatched_delete columns options t _ hsequence hsome
    · simp only [Option.map_none, Option.none_or, if_neg hk]
      rfl
  · show (upsertMerge _ _).applyMatched t (.row s) =
      some (if columns.sameCompared t s then t else columns.update t s)
    have hnewer : isNewer columns t (.row s) = true := by
      unfold isNewer
      rw [hsequence]
    have hwritten : isWritten columns options s = true := by rw [isWritten, hpreserve]; rfl
    rw [applyMatched_row, hpreserve, hnewer, hwritten]
    rcases hsame : columns.sameCompared t s with - | - <;> rfl

end Unsequenced

end Merge

/-! ### Tables that are merged by whole rows -/

section Keyed

variable {R κ : Type} [DecidableEq R] [DecidableEq κ] (key : R → κ)

/-- A table without tombstones and sequence columns. The rows of a matched pair agree in the key,
and the technical timestamps are not modelled, so comparing the other columns is comparing the
rows. -/
def keyedColumns : TableColumns R κ where
  key := key
  sameCompared target source := target = source
  update _ source := source
  updateMetadata target _ := target
  isDeleted _ := false
  sequence := none
  key_update _ _ _ := rfl
  key_updateMetadata _ _ := rfl

omit [DecidableEq κ] in
/-- The merge key. -/
@[simp] theorem keyedColumns_key (key : R → κ) : (keyedColumns key).key = key := rfl

/-- The arguments of a merge that also deletes keys. -/
def scopeOptions (deleteKeys : List κ) (sourceIsNonempty : Bool) : UpsertOptions κ :=
  { UpsertOptions.default κ with
    deleteKeys := some deleteKeys
    sourceIsNonempty := sourceIsNonempty }

variable {key} {rows df : List R} (deleteKeys : List κ) (sourceIsNonempty : Bool)

/-- A row of the source decides, then a delete key, then the target. -/
theorem mergeKey_scope (held : Option R) (source : Option (Change R κ)) :
    (upsertMerge (keyedColumns key) (scopeOptions deleteKeys sourceIsNonempty)).mergeKey held
        source =
      match source with
      | some (.row row) => some row
      | some (.delete _) => none
      | none => held := by
  cases held with
  | none =>
    cases source with
    | none => rfl
    | some change => cases change <;> rfl
  | some t =>
    cases source with
    | none => rfl
    | some change =>
      cases change with
      | delete k =>
        exact applyMatched_delete (keyedColumns key) (scopeOptions deleteKeys sourceIsNonempty) t k
          rfl rfl
      | row row =>
        show (upsertMerge _ _).applyMatched t (.row row) = some row
        rw [applyMatched_row]
        rcases eq_or_ne t row with rfl | hne
        · simp [scopeOptions, UpsertOptions.default, keyedColumns, isNewer, isWritten]
        · simp [scopeOptions, UpsertOptions.default, keyedColumns, isNewer, isWritten, hne]

section Rows

variable {options : UpsertOptions κ} (hpreserve : options.preserveTargetOnSoftDelete = false)

include hpreserve

/-- What becomes of a row: the source row of its key, else nothing if the key is to be deleted or no
source row may be missing, else the row itself. -/
theorem mergeTarget_keyed (key : R → κ) (df : List R) (t : R) :
    (upsertMerge (keyedColumns key) options).mergeTarget (upsertChanges options df) t =
      match MergeInto.lookup key (key t) df with
      | some s => some s
      | none =>
        if key t ∈ options.deleteKeys.getD [] then none
        else if options.deleteNotMatchedBySource then none else some t := by
  rw [mergeTarget_upsert rfl hpreserve, keyedColumns_key]
  rcases MergeInto.lookup key (key t) df with - | s
  · rfl
  · show some (if decide (t = s) = true then t else s) = some s
    split
    · rename_i hsame
      rw [of_decide_eq_true hsame]
    · rfl

/-- **A row of the result was written or was left alone.** -/
theorem mem_of_upsertTable {result : UpsertResult R}
    (h : upsertTable (keyedColumns key) options (some rows) df = some result) {row : R}
    (hrow : row ∈ result.rows) : row ∈ df ∨ row ∈ rows ∧ key row ∉ df.map key ∧
      key row ∉ options.deleteKeys.getD [] ∧
        (options.deleteNotMatchedBySource = true → df = []) := by
  rw [upsertTable] at h
  split at h
  · rename_i hempty
    obtain ⟨hdf, hdel⟩ := isEmpty_upsertChanges.1 (Bool.and_eq_true_iff.1 hempty).2
    rw [← Option.some.inj h] at hrow
    rw [hdf, hdel]
    exact Or.inr ⟨hrow, List.not_mem_nil, List.not_mem_nil, fun _ ↦ rfl⟩
  · obtain ⟨merged, hexec, rfl⟩ := Option.map_eq_some_iff.1 h
    rcases MergeInto.mem_of_execute hexec hrow with ⟨t, ht, hmerge⟩ | ⟨s, hs, hinsert⟩
    · rw [mergeTarget_keyed hpreserve] at hmerge
      cases hlookup : MergeInto.lookup key (key t) df with
      | some s =>
        rw [hlookup] at hmerge
        exact Or.inl (Option.some.inj hmerge ▸ (MergeInto.mem_of_lookup hlookup).1)
      | none =>
        rw [hlookup] at hmerge
        simp only [Option.ite_none_left_eq_some, Option.some.injEq] at hmerge
        obtain ⟨hkept, hsource, rfl⟩ := hmerge
        refine Or.inr ⟨ht, fun hkey ↦ ?_, hkept, fun hdelete ↦ absurd hdelete hsource⟩
        obtain ⟨s, hs, hsk⟩ := List.mem_map.1 hkey
        exact MergeInto.lookup_eq_none.1 hlookup s hs hsk
    · rcases List.mem_append.1 hs with hs | hs
      · obtain ⟨r, hr, rfl⟩ := List.mem_map.1 hs
        simp only [upsertMerge, Option.ite_none_right_eq_some, Option.some.injEq] at hinsert
        exact Or.inl (hinsert.2 ▸ hr)
      · obtain ⟨k, -, rfl⟩ := List.mem_map.1 hs
        cases hinsert

/-- **A key that is not to be deleted stays.** -/
theorem key_mem_upsertTable (hkeep : options.deleteNotMatchedBySource = false)
    {result : UpsertResult R}
    (h : upsertTable (keyedColumns key) options (some rows) df = some result) {k : κ}
    (hk : k ∈ rows.map key) (hdelete : k ∉ options.deleteKeys.getD []) :
    k ∈ result.rows.map key := by
  obtain ⟨t, ht, rfl⟩ := List.mem_map.1 hk
  rw [upsertTable] at h
  split at h
  · rw [← Option.some.inj h]
    exact hk
  · obtain ⟨merged, hexec, rfl⟩ := Option.map_eq_some_iff.1 h
    have hmerge := mergeTarget_keyed hpreserve key df t
    cases hlookup : MergeInto.lookup key (key t) df with
    | some s =>
      rw [hlookup] at hmerge
      have hs := MergeInto.mem_execute hexec ht hmerge
      exact (MergeInto.mem_of_lookup hlookup).2 ▸ List.mem_map_of_mem hs
    | none =>
      rw [hlookup] at hmerge
      simp only [if_neg hdelete, hkeep, Bool.false_eq_true, if_false] at hmerge
      exact List.mem_map_of_mem (MergeInto.mem_execute hexec ht hmerge)

/-- **A key of the source is in the result.** -/
theorem key_mem_upsertTable_of_source {result : UpsertResult R}
    (h : upsertTable (keyedColumns key) options (some rows) df = some result) {row : R}
    (hrow : row ∈ df) : key row ∈ result.rows.map key := by
  rw [upsertTable] at h
  split at h
  · rename_i hempty
    obtain ⟨hdf, -⟩ := isEmpty_upsertChanges.1 (Bool.and_eq_true_iff.1 hempty).2
    exact absurd (hdf ▸ hrow) List.not_mem_nil
  · obtain ⟨merged, hexec, rfl⟩ := Option.map_eq_some_iff.1 h
    rcases Decidable.em (∃ t ∈ rows, key t = key row) with ⟨t, ht, htk⟩ | hnone
    · cases hlookup : MergeInto.lookup key (key t) df with
      | none => exact absurd htk.symm (MergeInto.lookup_eq_none.1 hlookup row hrow)
      | some s =>
        have hmerge := mergeTarget_keyed hpreserve key df t
        rw [hlookup] at hmerge
        have hs := MergeInto.mem_execute hexec ht hmerge
        exact htk ▸ (MergeInto.mem_of_lookup hlookup).2 ▸ List.mem_map_of_mem hs
    · refine List.mem_map_of_mem (MergeInto.mem_execute_of_unmatched hexec
        (List.mem_append_left _ (List.mem_map_of_mem hrow)) (fun t ht hon ↦ ?_) ?_)
      · exact hnone ⟨t, ht, of_decide_eq_true hon⟩
      · simp [upsertMerge, isWritten, hpreserve]

end Rows

/-- **Scoped replacement.** With distinct keys in the table and in the source, and delete keys that
are no source keys, the merge succeeds; afterwards a key holds its source row if it has one, nothing
if it is to be deleted, and otherwise what it held. -/
theorem upsertTable_scope (hrows : (rows.map key).Nodup) (hdf : (df.map key).Nodup)
    (hdisjoint : ∀ row ∈ df, key row ∉ deleteKeys) :
    ∃ result, upsertTable (keyedColumns key) (scopeOptions deleteKeys sourceIsNonempty) (some rows)
        df = some result ∧ (result.rows.map key).Nodup ∧
      ∀ k, MergeInto.lookup key k result.rows =
        (MergeInto.lookup key k df).or
          (if k ∈ deleteKeys then none else MergeInto.lookup key k rows) := by
  have hsource := nodup_key_upsertChanges (keyedColumns key)
    (scopeOptions deleteKeys sourceIsNonempty) hdf hdisjoint
  obtain ⟨result, hexec, hnodup, hlookup⟩ := MergeInto.execute_spec
    (keyed_upsertMerge (keyedColumns key) (scopeOptions deleteKeys sourceIsNonempty))
    hrows hsource
  have hkeys : ∀ k, MergeInto.lookup key k result = (MergeInto.lookup key k df).or
      (if k ∈ deleteKeys then none else MergeInto.lookup key k rows) := by
    intro k
    refine (hlookup k).trans ?_
    have hkeys : (scopeOptions deleteKeys sourceIsNonempty).deleteKeys.getD [] = deleteKeys := rfl
    rw [mergeKey_scope, lookup_upsertChanges, hkeys, keyedColumns_key]
    cases MergeInto.lookup key k df with
    | some row => rfl
    | none =>
      rcases Decidable.em (k ∈ deleteKeys) with hk | hk
      · simp [hk]
      · simp [hk]
  rw [upsertTable]
  split
  · rename_i hempty
    -- nothing to merge: neither a source row nor a delete key
    obtain ⟨hdf, hdel⟩ : df = [] ∧ deleteKeys = [] :=
      isEmpty_upsertChanges.1 (Bool.and_eq_true_iff.1 hempty).2
    refine ⟨_, rfl, hrows, fun k ↦ ?_⟩
    rw [hdf, hdel]
    rfl
  · exact ⟨⟨result, true⟩, by rw [hexec]; rfl, hnodup, hkeys⟩

/-- The rows after a merge that also deletes keys: those of the source, and what the table held
under other keys that are not to be deleted. -/
theorem mem_upsertTable_scope (hrows : (rows.map key).Nodup) (hdf : (df.map key).Nodup)
    (hdisjoint : ∀ row ∈ df, key row ∉ deleteKeys) :
    ∃ result, upsertTable (keyedColumns key) (scopeOptions deleteKeys sourceIsNonempty) (some rows)
        df = some result ∧ (result.rows.map key).Nodup ∧
      ∀ row, row ∈ result.rows ↔
        row ∈ df ∨ row ∈ rows ∧ key row ∉ df.map key ∧ key row ∉ deleteKeys := by
  obtain ⟨result, hresult, hnodup, hlookup⟩ :=
    upsertTable_scope deleteKeys sourceIsNonempty hrows hdf hdisjoint
  refine ⟨result, hresult, hnodup, fun row ↦ ?_⟩
  have hmem := MergeInto.lookup_eq_some_iff hnodup (k := key row) (t := row)
  rw [and_iff_left rfl, hlookup] at hmem
  rw [← hmem]
  rcases hsource : MergeInto.lookup key (key row) df with - | source
  · -- no source row has the key
    have hnone := MergeInto.lookup_eq_none.1 hsource
    have hnot : key row ∉ df.map key := fun hin ↦ by
      obtain ⟨x, hx, hxk⟩ := List.mem_map.1 hin
      exact hnone x hx hxk
    rw [Option.none_or, or_iff_right fun hin ↦ hnone row hin rfl, and_iff_right hnot]
    split
    · rename_i hdelete
      refine iff_of_false (fun hnone ↦ ?_) fun h ↦ h.2 hdelete
      exact Option.some_ne_none row hnone.symm
    · rename_i hdelete
      rw [MergeInto.lookup_eq_some_iff hrows, and_iff_left rfl, and_iff_left hdelete]
  · obtain ⟨hin, hkey⟩ := MergeInto.mem_of_lookup hsource
    have hheld : key row ∈ df.map key := List.mem_map.2 ⟨source, hin, hkey⟩
    rw [Option.some_or, Option.some_inj, or_iff_left fun h ↦ h.2.1 hheld]
    refine ⟨fun heq ↦ heq ▸ hin, fun hrow ↦ ?_⟩
    exact List.inj_on_of_nodup_map hdf hin hrow hkey

end Keyed

/-! ### `append_new_rows` -/

section Append

variable {R κ : Type} [DecidableEq κ] (key : R → κ)

/-- The merge of `append_new_rows`. -/
def appendMerge : MergeInto.Merge R R where
  on target source := key target = key source
  matched := []
  notMatched source := some source
  deleteNotMatchedBySource := false

/-- `append_new_rows` into an existing table: the rows with new keys are inserted. -/
def appendNewRows (target df : List R) : Option (List R) :=
  (appendMerge key).execute target (Relational.dropDuplicatesOn key df)

variable {key}

/-- Appending compares the keys. -/
theorem keyed_appendMerge (key : R → κ) : (appendMerge key).Keyed key key where
  on_iff _ _ := decide_eq_true_iff
  key_action c hc := absurd hc List.not_mem_nil
  key_notMatched s t h := by rw [Option.some.inj h]

/-- **Appending keeps every row and adds the new keys.** -/
theorem appendNewRows_eq_some (key : R → κ) (target df : List R) :
    ∃ added, appendNewRows key target df = some (target ++ added) ∧ (∀ row ∈ added, row ∈ df) ∧
      ∀ row ∈ df, key row ∈ (target ++ added).map key := by
  have hexec : (appendMerge key).execute target (Relational.dropDuplicatesOn key df) = _ :=
    MergeInto.execute_of_nodup (keyed_appendMerge key)
      (Relational.nodup_map_dropDuplicatesOn key df)
  have htarget : target.filterMap ((appendMerge key).mergeTarget
      (Relational.dropDuplicatesOn key df)) = target := by
    refine (List.filterMap_congr fun t _ ↦ ?_).trans List.filterMap_some
    rw [MergeInto.Merge.mergeTarget]
    split <;> rfl
  have hadded : ((appendMerge key).unmatched target (Relational.dropDuplicatesOn key df)).filterMap
      (appendMerge key).notMatched =
      (appendMerge key).unmatched target (Relational.dropDuplicatesOn key df) :=
    List.filterMap_some
  rw [htarget, hadded] at hexec
  refine ⟨_, hexec, fun row hrow ↦ ?_, fun row hrow ↦ ?_⟩
  · exact Relational.mem_of_mem_dropDuplicatesOn (List.mem_filter.1 hrow).1
  · obtain ⟨kept, hkept, hkey⟩ := Relational.exists_mem_dropDuplicatesOn key hrow
    rw [← hkey, List.map_append, List.mem_append]
    rcases Decidable.em (∃ t ∈ target, key t = key kept) with ⟨t, ht, htk⟩ | hnone
    · exact Or.inl (htk ▸ List.mem_map_of_mem ht)
    · refine Or.inr (List.mem_map_of_mem (List.mem_filter.2 ⟨hkept, ?_⟩))
      simpa [appendMerge] using hnone

end Append

end LakehousePipeline
