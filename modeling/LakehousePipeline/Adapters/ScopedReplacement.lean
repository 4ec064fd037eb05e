import LakehousePipeline.Adapters.Upsert

/-!
# Scoped replacement in Gold

A Gold row has two technical timestamps besides its own columns. A merge does not compare them; an
update takes `updated_at` from the source and leaves `created_at`. With `delete_keys` the keys to be
deleted ride in the merge as source rows whose other columns are null, next to the rows to be
written.

`upsertTable_scoped` says exactly what such a merge leaves, whatever the target held: the target may
even have a key twice, then both rows are replaced. `upsertTable_map_row` connects the rows with
their timestamps to the rows without, which the Gold builder is modelled on. Merge keys are never
null in Gold: they are surrogate keys, or the ids of an order and its item.

## Row by row

The merge treats each row of the target on its own (`mergeTarget_stamped`): a row whose key is in
the source is replaced and keeps its `created_at`, a row whose key is to be deleted goes, and any
other stays. `scopedRows` is the table this leaves, with the rows of new keys after it, and
`isScopedReplacement_scopedRows` says what a reader finds under each key. `updated_at` is taken from
the source only where a compared column has changed, so writing the same rows again leaves the table
as it is, whenever it is done (`scopedRows_scopedRows`).
-/

namespace LakehousePipeline

/-! ### Rows with technical timestamps -/

/-- A Gold row with its technical timestamps. -/
structure StampedRow (R : Type) where
  /-- The merge keys and the other columns. -/
  row : R
  /-- `created_at`. -/
  createdAt : Option Timestamp
  /-- `updated_at`. -/
  updatedAt : Option Timestamp
  deriving DecidableEq

section Stamped

variable {R κ : Type} [DecidableEq R] (key : R → κ)

/-- The merge key of a row with its timestamps. -/
def StampedRow.mergeKey (t : StampedRow R) : κ :=
  key t.row

/-- A Gold table: `created_at` and `updated_at` are not compared, and an update leaves
`created_at`. -/
def stampedColumns : TableColumns (StampedRow R) κ where
  key := StampedRow.mergeKey key
  sameCompared target source := target.row = source.row
  update target source := { source with createdAt := target.createdAt }
  updateMetadata target _ := target
  isDeleted _ := false
  sequence := none
  key_update _ _ _ := rfl
  key_updateMetadata _ _ := rfl

/-- The merge key is that of the row without its timestamps. -/
@[simp] theorem stampedColumns_key : (stampedColumns key).key = StampedRow.mergeKey key := rfl

/-- The row of the source with `created_at` of the target, and with its `updated_at` when nothing
else has changed. -/
def replaced (source target : StampedRow R) : StampedRow R where
  row := source.row
  createdAt := target.createdAt
  updatedAt := if target.row = source.row then target.updatedAt else source.updatedAt

/-- A row that is replaced by one with the same columns stays. -/
theorem replaced_of_row_eq {source target : StampedRow R} (h : target.row = source.row) :
    replaced source target = target := by
  rw [replaced, if_pos h, ← h]

variable [DecidableEq κ]

/-- What a scoped replacement makes of a row. -/
def scopedRow (deleteKeys : List κ) (df : List (StampedRow R)) (t : StampedRow R) :
    Option (StampedRow R) :=
  match MergeInto.lookup (StampedRow.mergeKey key) (t.mergeKey key) df with
  | some s => some (replaced s t)
  | none => if t.mergeKey key ∈ deleteKeys then none else some t

/-- The rows after a scoped replacement. -/
def scopedRows (deleteKeys : List κ) (rows df : List (StampedRow R)) : List (StampedRow R) :=
  rows.filterMap (scopedRow key deleteKeys df) ++
    df.filter fun s ↦ s.mergeKey key ∉ rows.map (StampedRow.mergeKey key)

variable {key} {deleteKeys : List κ} {rows df df' : List (StampedRow R)}

/-! ### The merge -/

/-- What the merge makes of a row is what a scoped replacement makes of it. -/
theorem mergeTarget_stamped (sourceIsNonempty : Bool) (t : StampedRow R) :
    (upsertMerge (stampedColumns key) (scopeOptions deleteKeys sourceIsNonempty)).mergeTarget
        (upsertChanges (scopeOptions deleteKeys sourceIsNonempty) df) t =
      scopedRow key deleteKeys df t := by
  rw [mergeTarget_upsert rfl rfl, scopedRow, stampedColumns_key]
  rcases MergeInto.lookup (StampedRow.mergeKey key) (t.mergeKey key) df with - | s
  · rfl
  · show some (if decide (t.row = s.row) = true then t else { s with createdAt := t.createdAt }) =
      some (replaced s t)
    rcases eq_or_ne t.row s.row with hsame | hne
    · rw [if_pos (decide_eq_true hsame), replaced_of_row_eq hsame]
    · rw [if_neg (by simpa using hne), replaced, if_neg hne]

/-- The rows that are inserted: those of the source with a new key, and no delete key. -/
theorem inserted_stamped (sourceIsNonempty : Bool) (rows df : List (StampedRow R)) :
    ((upsertMerge (stampedColumns key) (scopeOptions deleteKeys sourceIsNonempty)).unmatched rows
        (upsertChanges (scopeOptions deleteKeys sourceIsNonempty) df)).filterMap
        (upsertMerge (stampedColumns key) (scopeOptions deleteKeys sourceIsNonempty)).notMatched =
      df.filter fun s ↦ s.mergeKey key ∉ rows.map (StampedRow.mergeKey key) := by
  set m := upsertMerge (stampedColumns key) (scopeOptions deleteKeys sourceIsNonempty) with hm
  have hrow : ∀ s : StampedRow R, m.notMatched (.row s) = some s := fun s ↦ rfl
  have hdelete : ∀ k, m.notMatched (.delete k) = none := fun k ↦ rfl
  show ((df.map Change.row ++ deleteKeys.dedup.map Change.delete).filter fun c ↦
    !rows.any fun t ↦ m.on t c).filterMap m.notMatched = _
  rw [List.filter_append, List.filterMap_append]
  have hnone : ((deleteKeys.dedup.map Change.delete).filter fun c ↦
      !rows.any fun t ↦ m.on t c).filterMap m.notMatched = [] := by
    refine List.filterMap_eq_nil_iff.2 fun c hc ↦ ?_
    obtain ⟨k, -, rfl⟩ := List.mem_map.1 (List.mem_filter.1 hc).1
    exact hdelete k
  rw [hnone, List.append_nil, List.filter_map, List.filterMap_map]
  have hid : m.notMatched ∘ Change.row = some := funext hrow
  rw [hid, List.filterMap_some]
  refine List.filter_congr fun s _ ↦ ?_
  rw [Bool.eq_iff_iff, decide_eq_true_iff, Function.comp_apply, Bool.not_eq_true',
    List.any_eq_false, List.mem_map]
  refine ⟨fun h ⟨t, ht, hkey⟩ ↦ h t ht (decide_eq_true hkey), fun h t ht hon ↦ ?_⟩
  exact h ⟨t, ht, of_decide_eq_true hon⟩

/-- **The merge with delete keys**, into a table that exists or not. -/
theorem upsertTable_scopedRows (sourceIsNonempty : Bool) (target : Option (List (StampedRow R)))
    (hdf : (df.map (StampedRow.mergeKey key)).Nodup)
    (hdisjoint : ∀ s ∈ df, s.mergeKey key ∉ deleteKeys) :
    ∃ result,
      upsertTable (stampedColumns key) (scopeOptions deleteKeys sourceIsNonempty) target df =
      some result ∧ result.rows = scopedRows key deleteKeys (target.getD []) df := by
  rcases target with - | rows
  · refine ⟨_, rfl, ?_⟩
    show df = [] ++ df.filter fun s ↦ s.mergeKey key ∉ []
    rw [List.nil_append, List.filter_eq_self.2]
    exact fun s _ ↦ decide_eq_true List.not_mem_nil
  · show ∃ result, upsertTable _ _ (some rows) df = some result ∧
      result.rows = scopedRows key deleteKeys rows df
    have hmerge : (upsertMerge (stampedColumns key)
        (scopeOptions deleteKeys sourceIsNonempty)).execute rows
          (upsertChanges (scopeOptions deleteKeys sourceIsNonempty) df) =
        some (scopedRows key deleteKeys rows df) := by
      rw [MergeInto.execute_of_nodup (keyed_upsertMerge _ _)
        (nodup_key_upsertChanges (stampedColumns key)
          (scopeOptions deleteKeys sourceIsNonempty) hdf hdisjoint), inserted_stamped,
        List.filterMap_congr fun t _ ↦ mergeTarget_stamped sourceIsNonempty t]
      rfl
    rw [upsertTable]
    split
    · rename_i hempty
      -- nothing to merge: neither a source row nor a delete key
      obtain ⟨hdf, hdel⟩ : df = [] ∧ deleteKeys = [] :=
        isEmpty_upsertChanges.1 (Bool.and_eq_true_iff.1 hempty).2
      refine ⟨_, rfl, ?_⟩
      subst hdf hdel
      exact (List.append_nil _).symm.trans (congrArg (· ++ []) List.filterMap_some.symm)
    · exact ⟨⟨_, true⟩, by rw [hmerge]; rfl, rfl⟩

/-! ### What is left -/

variable (key) in
/-- The rows of a key. -/
def rowsOfKey (k : κ) (rows : List (StampedRow R)) : List (StampedRow R) :=
  rows.filter fun t ↦ t.mergeKey key = k

variable (key) in
/-- The rows after a replacement of the rows `df` in the scope of the keys to be deleted. -/
structure IsScopedReplacement (deleteKeys : List κ) (rows df after : List (StampedRow R)) :
    Prop where
  /-- The keys: the old ones that are not to be deleted, and those of the source. -/
  keys : ∀ k, k ∈ after.map (StampedRow.mergeKey key) ↔
    k ∈ rows.map (StampedRow.mergeKey key) ∧ k ∉ deleteKeys ∨ k ∈ df.map (StampedRow.mergeKey key)
  /-- The rows of a key in neither are untouched. -/
  untouched : ∀ k ∉ deleteKeys, k ∉ df.map (StampedRow.mergeKey key) →
    rowsOfKey key k after = rowsOfKey key k rows
  /-- A source row with a new key is inserted as it is. -/
  inserted : ∀ s ∈ df, s.mergeKey key ∉ rows.map (StampedRow.mergeKey key) →
    rowsOfKey key (s.mergeKey key) after = [s]
  /-- The rows of another source key take its columns. -/
  updated : ∀ s ∈ df, s.mergeKey key ∈ rows.map (StampedRow.mergeKey key) →
    rowsOfKey key (s.mergeKey key) after =
      (rowsOfKey key (s.mergeKey key) rows).map (replaced s)

/-- A row that is left keeps its key. -/
theorem mergeKey_scopedRow {t t' : StampedRow R} (h : scopedRow key deleteKeys df t = some t') :
    t'.mergeKey key = t.mergeKey key := by
  rw [scopedRow] at h
  rcases hlookup : MergeInto.lookup (StampedRow.mergeKey key) (t.mergeKey key) df with - | s
  · rw [hlookup] at h
    obtain ⟨-, htt'⟩ := Option.ite_none_left_eq_some.1 h
    rw [Option.some.inj htt']
  · rw [hlookup] at h
    rw [← Option.some.inj h]
    exact (MergeInto.mem_of_lookup hlookup).2

/-- A row with a key of the source is replaced. -/
theorem scopedRow_of_source (hdf : (df.map (StampedRow.mergeKey key)).Nodup) {s t : StampedRow R}
    (hs : s ∈ df) (hkey : t.mergeKey key = s.mergeKey key) :
    scopedRow key deleteKeys df t = some (replaced s t) := by
  rw [scopedRow, (MergeInto.lookup_eq_some_iff hdf).2 ⟨hs, hkey.symm⟩]

/-- Any other stays, unless its key is to be deleted. -/
theorem scopedRow_of_not_mem {t : StampedRow R}
    (hkey : t.mergeKey key ∉ df.map (StampedRow.mergeKey key)) :
    scopedRow key deleteKeys df t = if t.mergeKey key ∈ deleteKeys then none else some t := by
  have hnone : MergeInto.lookup (StampedRow.mergeKey key) (t.mergeKey key) df = none :=
    MergeInto.lookup_eq_none.2 fun s hs hsk ↦ hkey (List.mem_map.2 ⟨s, hs, hsk⟩)
  rw [scopedRow, hnone]

/-- The rows of a key after the merge. -/
theorem rowsOfKey_scopedRows (deleteKeys : List κ) (rows df : List (StampedRow R)) (k : κ) :
    rowsOfKey key k (scopedRows key deleteKeys rows df) =
      (rowsOfKey key k rows).filterMap (scopedRow key deleteKeys df) ++
        if k ∈ rows.map (StampedRow.mergeKey key) then [] else rowsOfKey key k df := by
  rw [rowsOfKey, scopedRows, List.filter_append]
  congr 1
  · rw [List.filter_filterMap, rowsOfKey, List.filterMap_filter]
    refine List.filterMap_congr fun t _ ↦ ?_
    rcases hrow : scopedRow key deleteKeys df t with - | t'
    · rw [Option.filter_none, ite_self]
    · rw [Option.filter_some, mergeKey_scopedRow hrow]
  · rw [List.filter_filter]
    split
    · rename_i hk
      refine List.filter_eq_nil_iff.2 fun s _ hs ↦ ?_
      obtain ⟨hkey, hnew⟩ := Bool.and_eq_true_iff.1 hs
      rw [of_decide_eq_true hkey] at hnew
      exact of_decide_eq_true hnew hk
    · rename_i hk
      refine List.filter_congr fun s _ ↦ ?_
      rw [Bool.eq_iff_iff, Bool.and_eq_true, decide_eq_true_iff, decide_eq_true_iff]
      refine and_iff_left_of_imp fun hkey ↦ ?_
      rwa [hkey]

omit [DecidableEq R] in
/-- A key has a row. -/
theorem mem_keys_iff {k : κ} {rows : List (StampedRow R)} :
    k ∈ rows.map (StampedRow.mergeKey key) ↔ rowsOfKey key k rows ≠ [] := by
  rw [rowsOfKey, Ne, List.filter_eq_nil_iff, List.mem_map]
  simp

/-- **A scoped replacement** is what the merge leaves. -/
theorem isScopedReplacement_scopedRows (hdf : (df.map (StampedRow.mergeKey key)).Nodup) :
    IsScopedReplacement key deleteKeys rows df (scopedRows key deleteKeys rows df) := by
  -- outside both key sets no clause of the merge matches
  have huntouched : ∀ k ∉ deleteKeys, k ∉ df.map (StampedRow.mergeKey key) →
      rowsOfKey key k (scopedRows key deleteKeys rows df) = rowsOfKey key k rows := by
    intro k hdelete hsource
    have hnone : rowsOfKey key k df = [] :=
      of_not_not fun hne ↦ hsource (mem_keys_iff.2 hne)
    rw [rowsOfKey_scopedRows, hnone, ite_self, List.append_nil]
    refine (List.filterMap_congr fun t ht ↦ ?_).trans List.filterMap_some
    obtain rfl := of_decide_eq_true (List.mem_filter.1 ht).2
    rw [scopedRow_of_not_mem hsource, if_neg hdelete]
  -- `whenNotMatchedInsert`
  have hinserted : ∀ s ∈ df, s.mergeKey key ∉ rows.map (StampedRow.mergeKey key) →
      rowsOfKey key (s.mergeKey key) (scopedRows key deleteKeys rows df) = [s] := by
    intro s hs hnew
    have hnone : rowsOfKey key (s.mergeKey key) rows = [] :=
      of_not_not fun hne ↦ hnew (mem_keys_iff.2 hne)
    rw [rowsOfKey_scopedRows, hnone, if_neg hnew, List.filterMap_nil, List.nil_append]
    exact Relational.filter_key_eq_singleton hdf hs
  -- `whenMatchedUpdate`: the new values and the old `_created_at`
  have hupdated : ∀ s ∈ df, s.mergeKey key ∈ rows.map (StampedRow.mergeKey key) →
      rowsOfKey key (s.mergeKey key) (scopedRows key deleteKeys rows df) =
        (rowsOfKey key (s.mergeKey key) rows).map (replaced s) := by
    intro s hs hold
    rw [rowsOfKey_scopedRows, if_pos hold, List.append_nil, ← List.filterMap_eq_map]
    refine List.filterMap_congr fun t ht ↦ ?_
    exact scopedRow_of_source hdf hs (of_decide_eq_true (List.mem_filter.1 ht).2)
  refine ⟨fun k ↦ ?_, huntouched, hinserted, hupdated⟩
  rcases Decidable.em (k ∈ df.map (StampedRow.mergeKey key)) with hsource | hsource
  · -- a source key is in the table, new or not
    refine iff_of_true (mem_keys_iff.2 ?_) (Or.inr hsource)
    obtain ⟨s, hs, rfl⟩ := List.mem_map.1 hsource
    rcases Decidable.em (s.mergeKey key ∈ rows.map (StampedRow.mergeKey key)) with hold | hnew
    · rw [hupdated s hs hold]
      exact fun hnil ↦ mem_keys_iff.1 hold (List.map_eq_nil_iff.1 hnil)
    · rw [hinserted s hs hnew]
      exact List.cons_ne_nil _ _
  · rw [or_iff_left hsource]
    rcases Decidable.em (k ∈ deleteKeys) with hdelete | hdelete
    · refine iff_of_false (fun hk ↦ mem_keys_iff.1 hk ?_) fun h ↦ h.2 hdelete
      have hnone : rowsOfKey key k df = [] :=
        of_not_not fun hne ↦ hsource (mem_keys_iff.2 hne)
      rw [rowsOfKey_scopedRows, hnone, ite_self, List.append_nil]
      refine List.filterMap_eq_nil_iff.2 fun t ht ↦ ?_
      obtain rfl := of_decide_eq_true (List.mem_filter.1 ht).2
      rw [scopedRow_of_not_mem hsource, if_pos hdelete]
    · rw [and_iff_left hdelete, mem_keys_iff, mem_keys_iff, huntouched k hdelete hsource]

/-- A row of a source key has the columns of the source row. -/
theorem IsScopedReplacement.row_eq {after : List (StampedRow R)}
    (h : IsScopedReplacement key deleteKeys rows df after) {s t : StampedRow R} (hs : s ∈ df)
    (ht : t ∈ after) (hkey : t.mergeKey key = s.mergeKey key) : t.row = s.row := by
  have hmem : t ∈ rowsOfKey key (s.mergeKey key) after :=
    List.mem_filter.2 ⟨ht, decide_eq_true hkey⟩
  rcases Decidable.em (s.mergeKey key ∈ rows.map (StampedRow.mergeKey key)) with hold | hnew
  · rw [h.updated s hs hold] at hmem
    obtain ⟨t₀, -, rfl⟩ := List.mem_map.1 hmem
    rfl
  · rw [h.inserted s hs hnew] at hmem
    rw [List.mem_singleton.1 hmem]

omit [DecidableEq R] [DecidableEq κ] in
/-- Rows that only differ in their timestamps have the same keys. -/
theorem map_mergeKey_eq (hsame : df'.map StampedRow.row = df.map StampedRow.row) :
    df'.map (StampedRow.mergeKey key) = df.map (StampedRow.mergeKey key) := by
  have hmap := congrArg (List.map key) hsame
  rwa [List.map_map, List.map_map] at hmap

/-- **A second replacement** by the same rows, whatever their timestamps, changes nothing. -/
theorem scopedRows_scopedRows (hdf : (df.map (StampedRow.mergeKey key)).Nodup)
    (hsame : df'.map StampedRow.row = df.map StampedRow.row) :
    scopedRows key deleteKeys (scopedRows key deleteKeys rows df) df' =
      scopedRows key deleteKeys rows df := by
  have hafter : IsScopedReplacement key deleteKeys rows df (scopedRows key deleteKeys rows df) :=
    isScopedReplacement_scopedRows hdf
  set after := scopedRows key deleteKeys rows df
  have hkeys : df'.map (StampedRow.mergeKey key) = df.map (StampedRow.mergeKey key) :=
    map_mergeKey_eq hsame
  have hnone : (df'.filter fun s ↦ s.mergeKey key ∉ after.map (StampedRow.mergeKey key)) = [] := by
    refine List.filter_eq_nil_iff.2 fun s hs hnew ↦ of_decide_eq_true hnew ?_
    refine (hafter.keys _).2 (Or.inr ?_)
    rw [← hkeys]
    exact List.mem_map_of_mem hs
  rw [scopedRows, hnone, List.append_nil]
  refine (List.filterMap_congr fun t ht ↦ ?_).trans List.filterMap_some
  rcases Decidable.em (t.mergeKey key ∈ df'.map (StampedRow.mergeKey key)) with hsource | hsource
  · obtain ⟨s', hs', hkey⟩ := List.mem_map.1 hsource
    -- the source row of the key in both merges
    have hrow : s'.row ∈ df.map StampedRow.row := hsame ▸ List.mem_map_of_mem hs'
    obtain ⟨s, hs, hss'⟩ := List.mem_map.1 hrow
    have hkey' : t.mergeKey key = s.mergeKey key := by
      rw [← hkey, StampedRow.mergeKey, StampedRow.mergeKey, hss']
    rw [scopedRow_of_source (hkeys ▸ hdf) hs' hkey.symm,
      replaced_of_row_eq ((hafter.row_eq hs ht hkey').trans hss')]
  · rw [scopedRow_of_not_mem hsource, if_neg]
    rw [hkeys] at hsource
    obtain ⟨-, hdelete⟩ | hin := (hafter.keys _).1 (List.mem_map_of_mem ht)
    · exact hdelete
    · exact absurd hin hsource

/-- **Scoped replacement is exact.** Whatever the target holds, a merge of rows with distinct keys
that deletes other keys succeeds and leaves a scoped replacement, and the call that is made again,
with rows that only differ in their timestamps, leaves the table as it is. -/
theorem upsertTable_scoped (key : R → κ) (deleteKeys : List κ) (sourceIsNonempty : Bool)
    (target : Option (List (StampedRow R))) (df : List (StampedRow R))
    (hdf : (df.map (StampedRow.mergeKey key)).Nodup)
    (hdisjoint : ∀ s ∈ df, s.mergeKey key ∉ deleteKeys) :
    ∃ result,
      upsertTable (stampedColumns key) (scopeOptions deleteKeys sourceIsNonempty) target df =
      some result ∧ IsScopedReplacement key deleteKeys (target.getD []) df result.rows ∧
      ∀ df' : List (StampedRow R), df'.map StampedRow.row = df.map StampedRow.row →
        ∃ again, upsertTable (stampedColumns key) (scopeOptions deleteKeys sourceIsNonempty)
          (some result.rows) df' = some again ∧ again.rows = result.rows := by
  obtain ⟨result, hresult, hrows⟩ := upsertTable_scopedRows sourceIsNonempty target hdf hdisjoint
  refine ⟨result, hresult, ?_, fun df' hsame ↦ ?_⟩
  · rw [hrows]
    exact isScopedReplacement_scopedRows hdf
  · have hkeys : df'.map (StampedRow.mergeKey key) = df.map (StampedRow.mergeKey key) :=
      map_mergeKey_eq hsame
    have hdisjoint' : ∀ s ∈ df', s.mergeKey key ∉ deleteKeys := fun s hs ↦ by
      obtain ⟨s₀, hs₀, hkey⟩ := List.mem_map.1 (hkeys ▸ List.mem_map_of_mem hs)
      exact hkey ▸ hdisjoint s₀ hs₀
    obtain ⟨again, hagain, hagainRows⟩ := upsertTable_scopedRows sourceIsNonempty
      (some result.rows) (hkeys ▸ hdf) hdisjoint'
    refine ⟨again, hagain, hagainRows.trans ?_⟩
    rw [Option.getD_some, hrows, scopedRows_scopedRows hdf hsame]

end Stamped

/-- Keys 1 (twice), 2, 3 and 4 in the table; 1 is written as it is, 2 changes, 5 is new, 3 goes. -/
theorem upsertTable_scoped_small :
    let table : List (StampedRow (ℤ × ℤ)) :=
      [⟨(1, 10), some 100, some 100⟩, ⟨(1, 11), some 101, none⟩, ⟨(2, 20), some 100, some 150⟩,
        ⟨(3, 30), none, some 100⟩, ⟨(4, 40), some 100, some 100⟩]
    let df : List (StampedRow (ℤ × ℤ)) :=
      [⟨(1, 10), some 200, some 200⟩, ⟨(2, 21), some 200, some 200⟩, ⟨(5, 50), some 200, some 200⟩]
    ∃ result, upsertTable (stampedColumns Prod.fst) (scopeOptions [3, 3] false) (some table) df =
      some result ∧ IsScopedReplacement Prod.fst [3, 3] table df result.rows ∧
      ∀ df', df'.map StampedRow.row = df.map StampedRow.row →
        ∃ again, upsertTable (stampedColumns Prod.fst) (scopeOptions [3, 3] false)
          (some result.rows) df' = some again ∧ again.rows = result.rows :=
  upsertTable_scoped Prod.fst [3, 3] false
    (some [⟨(1, 10), some 100, some 100⟩, ⟨(1, 11), some 101, none⟩, ⟨(2, 20), some 100, some 150⟩,
      ⟨(3, 30), none, some 100⟩, ⟨(4, 40), some 100, some 100⟩])
    [⟨(1, 10), some 200, some 200⟩, ⟨(2, 21), some 200, some 200⟩, ⟨(5, 50), some 200, some 200⟩]
    (by decide) (by decide)

/-! ### The rows without their timestamps -/

section Rows

variable {R κ : Type} [DecidableEq R] [DecidableEq κ] {key : R → κ}

/-- A change without the timestamps of its row. -/
def Change.unstamped : Change (StampedRow R) κ → Change R κ
  | .row s => .row s.row
  | .delete k => .delete k

omit [DecidableEq R] in
/-- The merge source without the timestamps. -/
theorem upsertChanges_map_row (options : UpsertOptions κ) (df : List (StampedRow R)) :
    upsertChanges options (df.map StampedRow.row) =
      (upsertChanges options df).map Change.unstamped := by
  show _ = (df.map Change.row ++ (options.deleteKeys.getD []).dedup.map Change.delete).map _
  rw [List.map_append, List.map_map, List.map_map]
  show (df.map StampedRow.row).map Change.row ++ _ = _
  rw [List.map_map]
  rfl

/-- A matched pair without the timestamps. -/
theorem applyMatched_unstamped {options : UpsertOptions κ}
    (hpreserve : options.preserveTargetOnSoftDelete = false) (t : StampedRow R)
    (c : Change (StampedRow R) κ) :
    (upsertMerge (keyedColumns key) options).applyMatched t.row c.unstamped =
      ((upsertMerge (stampedColumns key) options).applyMatched t c).map StampedRow.row := by
  rcases c with s | k
  · show (upsertMerge (keyedColumns key) options).applyMatched t.row (.row s.row) = _
    rw [applyMatched_row, applyMatched_row, hpreserve]
    rcases eq_or_ne t.row s.row with hsame | hne
    · simp [keyedColumns, stampedColumns, isNewer, hsame]
    · simp [keyedColumns, stampedColumns, isNewer, isWritten, hpreserve, hne]
  · show (upsertMerge (keyedColumns key) options).applyMatched t.row (.delete k) = _
    unfold MergeInto.Merge.applyMatched upsertMerge
    rcases hkeys : options.deleteKeys.isSome with - | - <;>
      simp [hpreserve, deleteClause, updateClause, isNewer, keyedColumns, stampedColumns]

/-- **The timestamps decide nothing**: the rows without them are merged as if they had none. -/
theorem upsertTable_map_row {options : UpsertOptions κ}
    (hpreserve : options.preserveTargetOnSoftDelete = false)
    (target : Option (List (StampedRow R))) (df : List (StampedRow R)) :
    upsertTable (keyedColumns key) options (target.map (List.map StampedRow.row))
        (df.map StampedRow.row) =
      (upsertTable (stampedColumns key) options target df).map fun result ↦
        ⟨result.rows.map StampedRow.row, result.written⟩ := by
  rcases target with - | rows
  · rfl
  · have hmerge : (upsertMerge (keyedColumns key) options).execute (rows.map StampedRow.row)
        ((upsertChanges options df).map Change.unstamped) =
        ((upsertMerge (stampedColumns key) options).execute rows (upsertChanges options df)).map
          (List.map StampedRow.row) := MergeInto.execute_map
      (fun t c ↦ by rcases c with s | k <;> rfl) (applyMatched_unstamped hpreserve)
      (fun c ↦ by
        rcases c with s | k
        · simp [upsertMerge, Change.unstamped, isWritten, hpreserve]
        · rfl)
      rfl rows (upsertChanges options df)
    show upsertTable (keyedColumns key) options (some (rows.map StampedRow.row)) _ = _
    rw [upsertTable, upsertTable, upsertChanges_map_row, hmerge, List.isEmpty_map]
    split
    · rfl
    · rw [Option.map_map, Option.map_map]
      rfl

end Rows

end LakehousePipeline
