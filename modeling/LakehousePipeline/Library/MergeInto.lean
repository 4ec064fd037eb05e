import LakehousePipeline.Library.Relational

/-!
# `MERGE INTO`

A merge joins a source table to a target table and changes the target by clauses: the first clause
whose condition holds of a matched pair updates or deletes the target row, unmatched source rows may
be inserted, and unmatched target rows may be deleted. A target row that matches more than one
source row makes the merge fail, so `execute` is partial.

Where both tables have distinct keys and the join compares keys, the merge never fails and acts key
by key: `lookup_execute` gives the row of a key afterwards from the row and the source row of that
key alone. Frame conditions and convergence results use nothing else about merges.

The rules are these. `execute_of_nodup` gives the result of a merge without the case of failure,
`execute_spec` what is under each key of it, and `mem_of_execute` where its rows come from, which
needs no keys at all. `execute_map` transports a merge along maps of the rows it does not look
behind. A table with distinct keys is a partial map, and `perm_of_lookup_eq` goes back from the map
to the table, up to the order of its rows.
-/

namespace MergeInto

variable {T S κ : Type*}

/-- A `WHEN MATCHED` clause; the action is the new target row, or `none` to delete it. -/
structure Clause (T S : Type*) where
  /-- The condition, on the target row and the source row. -/
  condition : T → S → Bool
  /-- The new target row. -/
  action : T → S → Option T

/-- A merge statement. -/
structure Merge (T S : Type*) where
  /-- The join condition. -/
  on : T → S → Bool
  /-- The `WHEN MATCHED` clauses, in order. -/
  matched : List (Clause T S)
  /-- `WHEN NOT MATCHED`: the row to insert, if any. -/
  notMatched : S → Option T
  /-- Whether there is a `WHEN NOT MATCHED BY SOURCE` clause that deletes. -/
  deleteNotMatchedBySource : Bool

namespace Merge

variable (m : Merge T S)

/-- A matched pair: the first clause that applies decides. -/
def applyMatched (t : T) (s : S) : Option T :=
  match m.matched.find? fun c ↦ c.condition t s with
  | some c => c.action t s
  | none => some t

/-- What becomes of a target row. -/
def mergeTarget (source : List S) (t : T) : Option T :=
  match source.find? (m.on t) with
  | some s => m.applyMatched t s
  | none => if m.deleteNotMatchedBySource then none else some t

/-- The source rows no target row matches. -/
def unmatched (target : List T) (source : List S) : List S :=
  source.filter fun s ↦ !target.any fun t ↦ m.on t s

/-- The merge. It fails when a target row matches more than one source row. -/
def execute (target : List T) (source : List S) : Option (List T) :=
  if target.any fun t ↦ 1 < (source.filter (m.on t)).length then none
  else some (target.filterMap (m.mergeTarget source) ++
    (m.unmatched target source).filterMap m.notMatched)

/-- What becomes of a key, from its target row and its source row. -/
def mergeKey : Option T → Option S → Option T
  | some t, some s => m.applyMatched t s
  | some t, none => if m.deleteNotMatchedBySource then none else some t
  | none, some s => m.notMatched s
  | none, none => none

/-- **The merge compares and keeps keys.** -/
structure Keyed (targetKey : T → κ) (sourceKey : S → κ) : Prop where
  /-- The join condition is equality of keys. -/
  on_iff : ∀ t s, m.on t s = true ↔ targetKey t = sourceKey s
  /-- A matched clause keeps the key. -/
  key_action : ∀ c ∈ m.matched, ∀ t s t', targetKey t = sourceKey s → c.action t s = some t' →
    targetKey t' = sourceKey s
  /-- An inserted row has the key of its source row. -/
  key_notMatched : ∀ s t, m.notMatched s = some t → targetKey t = sourceKey s

variable {m}

/-- A matched row keeps its key. -/
theorem key_applyMatched {targetKey : T → κ} {sourceKey : S → κ} (hm : m.Keyed targetKey sourceKey)
    {t t' : T} {s : S} (hkey : targetKey t = sourceKey s) (h : m.applyMatched t s = some t') :
    targetKey t' = targetKey t := by
  unfold applyMatched at h
  split at h
  · rename_i c hc
    exact (hm.key_action c (List.mem_of_find?_eq_some hc) t s t' hkey h).trans hkey.symm
  · rw [Option.some.inj h]

end Merge

/-! ### Merges of what is read from the rows -/

/-- **A merge that only looks at part of the rows** is the merge of these parts. -/
theorem execute_map {T' S' : Type*} {m : Merge T S} {m' : Merge T' S'} {f : T → T'} {g : S → S'}
    (hon : ∀ t s, m'.on (f t) (g s) = m.on t s)
    (hmatched : ∀ t s, m'.applyMatched (f t) (g s) = (m.applyMatched t s).map f)
    (hnotMatched : ∀ s, m'.notMatched (g s) = (m.notMatched s).map f)
    (hdelete : m'.deleteNotMatchedBySource = m.deleteNotMatchedBySource)
    (target : List T) (source : List S) :
    m'.execute (target.map f) (source.map g) = (m.execute target source).map (List.map f) := by
  have hon' : ∀ t, m'.on (f t) ∘ g = m.on t := fun t ↦ funext (hon t)
  have hfails : ((target.map f).any fun t ↦ 1 < ((source.map g).filter (m'.on t)).length) =
      target.any fun t ↦ 1 < (source.filter (m.on t)).length := by
    rw [List.any_map]
    refine congrArg (List.any target) (funext fun t ↦ ?_)
    rw [Function.comp_apply, List.filter_map, hon', List.length_map]
  have htarget : (target.map f).filterMap (m'.mergeTarget (source.map g)) =
      (target.filterMap (m.mergeTarget source)).map f := by
    rw [List.filterMap_map, List.map_filterMap]
    refine List.filterMap_congr fun t _ ↦ ?_
    rw [Function.comp_apply, Merge.mergeTarget, Merge.mergeTarget, List.find?_map, hon', hdelete]
    rcases source.find? (m.on t) with - | s
    · show (if _ then none else some (f t)) = Option.map f (if _ then none else some t)
      split <;> rfl
    · exact hmatched t s
  have hinserted : (m'.unmatched (target.map f) (source.map g)).filterMap m'.notMatched =
      ((m.unmatched target source).filterMap m.notMatched).map f := by
    rw [Merge.unmatched, Merge.unmatched, List.filter_map, List.filterMap_map, List.map_filterMap]
    have hunmatched : (fun s ↦ !(target.map f).any fun t ↦ m'.on t s) ∘ g =
        fun s ↦ !target.any fun t ↦ m.on t s := by
      funext s
      rw [Function.comp_apply, List.any_map]
      exact congrArg (fun p ↦ !target.any p) (funext fun t ↦ hon t s)
    rw [hunmatched]
    exact List.filterMap_congr fun s _ ↦ hnotMatched s
  rw [Merge.execute, Merge.execute, hfails, htarget, hinserted, ← List.map_append]
  split <;> rfl

/-! ### Rows by key -/

section Lookup

variable [DecidableEq κ]

/-- The row of a key. -/
def lookup (key : T → κ) (k : κ) (rows : List T) : Option T :=
  rows.find? fun t ↦ key t = k

/-- An empty table has no row. -/
@[simp] theorem lookup_nil (key : T → κ) (k : κ) : lookup key k [] = none := rfl

/-- There is no row of a key if no row has it. -/
theorem lookup_eq_none {key : T → κ} {k : κ} {rows : List T} :
    lookup key k rows = none ↔ ∀ t ∈ rows, key t ≠ k := by
  simp [lookup]

/-- The row of a key is a row with it. -/
theorem mem_of_lookup {key : T → κ} {k : κ} {rows : List T} {t : T}
    (h : lookup key k rows = some t) : t ∈ rows ∧ key t = k :=
  ⟨List.mem_of_find?_eq_some h, by simpa using List.find?_some h⟩

/-- With distinct keys, a row is the row of its key. -/
theorem lookup_eq_some_iff {key : T → κ} {rows : List T} (hnd : (rows.map key).Nodup) {k : κ}
    {t : T} : lookup key k rows = some t ↔ t ∈ rows ∧ key t = k := by
  refine ⟨mem_of_lookup, fun ⟨ht, hk⟩ ↦ ?_⟩
  cases h : lookup key k rows with
  | none => exact absurd hk (lookup_eq_none.1 h t ht)
  | some u =>
    obtain ⟨hu, huk⟩ := mem_of_lookup h
    rw [List.inj_on_of_nodup_map hnd hu ht (huk.trans hk.symm)]

/-- The first of two tables decides. -/
theorem lookup_append (key : T → κ) (k : κ) (xs ys : List T) :
    lookup key k (xs ++ ys) = (lookup key k xs).or (lookup key k ys) :=
  List.find?_append

/-- The row of a key is found among the rows that can have the key. -/
theorem lookup_filter {key : T → κ} {k : κ} {p : T → Bool} (h : ∀ t, key t = k → p t = true)
    (rows : List T) : lookup key k (rows.filter p) = lookup key k rows := by
  rw [lookup, lookup, List.find?_filter]
  congr 1
  funext t
  rcases Decidable.em (key t = k) with hk | hk
  · simp [hk, h t hk]
  · simp [hk]

/-- **Tables with distinct keys that hold the same row for every key are permutations.** -/
theorem perm_of_lookup_eq {key : T → κ} {rows rows' : List T} (hrows : (rows.map key).Nodup)
    (hrows' : (rows'.map key).Nodup) (h : ∀ k, lookup key k rows = lookup key k rows') :
    rows.Perm rows' := by
  refine (List.perm_ext_iff_of_nodup hrows.of_map hrows'.of_map).2 fun t ↦ ?_
  have hmem := lookup_eq_some_iff hrows (k := key t) (t := t)
  have hmem' := lookup_eq_some_iff hrows' (k := key t) (t := t)
  rw [h, hmem'] at hmem
  simpa using hmem.symm

/-- With distinct keys the order of the rows does not matter. -/
theorem lookup_eq_of_perm {key : T → κ} {rows rows' : List T} (hrows : (rows.map key).Nodup)
    (h : rows.Perm rows') (k : κ) : lookup key k rows = lookup key k rows' := by
  refine Option.ext fun t ↦ ?_
  rw [lookup_eq_some_iff hrows, lookup_eq_some_iff ((h.map key).nodup_iff.1 hrows), h.mem_iff]

/-- The row of a key after each row was changed or dropped and kept its key. -/
theorem lookup_filterMap {key : T → κ} {keyS : S → κ} {f : S → Option T} {rows : List S}
    (hnd : (rows.map keyS).Nodup) (hf : ∀ s ∈ rows, ∀ t, f s = some t → key t = keyS s) (k : κ) :
    lookup key k (rows.filterMap f) = (lookup keyS k rows).bind f := by
  induction rows with
  | nil => rfl
  | cons s rest ih =>
    rw [List.map_cons, List.nodup_cons] at hnd
    have hrest := ih hnd.2 fun s hs ↦ hf s (List.mem_cons_of_mem _ hs)
    have hhead : lookup keyS k (s :: rest) = if keyS s = k then some s else lookup keyS k rest := by
      simp only [lookup, List.find?_cons]
      split <;> simp_all
    rw [hhead]
    cases hfs : f s with
    | none =>
      rw [List.filterMap_cons_none hfs, hrest]
      split
      · rename_i hk
        have hnone : lookup keyS k rest = none :=
          lookup_eq_none.2 fun x hx hxk ↦ hnd.1 (hk ▸ hxk ▸ List.mem_map_of_mem hx)
        rw [hnone, Option.bind_none, Option.bind_some, hfs]
      · rfl
    | some t =>
      have ht : key t = keyS s := hf s List.mem_cons_self t hfs
      rw [List.filterMap_cons_some hfs]
      by_cases hk : keyS s = k
      · rw [if_pos hk, Option.bind_some, hfs, lookup, List.find?_cons_of_pos (by simp [ht, hk])]
      · rw [if_neg hk, ← hrest, lookup, List.find?_cons_of_neg (by simp [ht, hk])]
        rfl

omit [DecidableEq κ] in
/-- Changing and dropping rows keeps keys distinct. -/
theorem nodup_map_filterMap {key : T → κ} {keyS : S → κ} {f : S → Option T} {rows : List S}
    (hnd : (rows.map keyS).Nodup) (hf : ∀ s ∈ rows, ∀ t, f s = some t → key t = keyS s) :
    ((rows.filterMap f).map key).Nodup := by
  induction rows with
  | nil => exact List.nodup_nil
  | cons s rest ih =>
    rw [List.map_cons, List.nodup_cons] at hnd
    have hrest := ih hnd.2 fun s hs ↦ hf s (List.mem_cons_of_mem _ hs)
    cases hfs : f s with
    | none => rwa [List.filterMap_cons_none hfs]
    | some t =>
      rw [List.filterMap_cons_some hfs, List.map_cons, List.nodup_cons]
      refine ⟨fun hmem ↦ hnd.1 ?_, hrest⟩
      obtain ⟨t', ht', hkey⟩ := List.mem_map.1 hmem
      obtain ⟨x, hx, hfx⟩ := List.mem_filterMap.1 ht'
      rw [← hf s List.mem_cons_self t hfs, ← hkey, hf x (List.mem_cons_of_mem _ hx) t' hfx]
      exact List.mem_map_of_mem hx

/-! ### A merge acts key by key -/

variable {m : Merge T S} {targetKey : T → κ} {sourceKey : S → κ} {target : List T} {source : List S}

/-- A keyed merge matches a row with the source row of its key. -/
theorem find?_on (hm : m.Keyed targetKey sourceKey) (t : T) (source : List S) :
    source.find? (m.on t) = lookup sourceKey (targetKey t) source := by
  have hcond : m.on t = fun s ↦ decide (sourceKey s = targetKey t) := funext fun s ↦ by
    rw [Bool.eq_iff_iff, hm.on_iff, decide_eq_true_eq]
    exact eq_comm
  rw [hcond, lookup]

/-- **Where the rows of a result come from.** -/
theorem mem_of_execute {rows : List T} (h : m.execute target source = some rows) {row : T}
    (hrow : row ∈ rows) : (∃ t ∈ target, m.mergeTarget source t = some row) ∨
      ∃ s ∈ source, m.notMatched s = some row := by
  rw [Merge.execute, Option.ite_none_left_eq_some] at h
  rw [← Option.some.inj h.2, List.mem_append] at hrow
  rcases hrow with hkept | hinserted
  · exact Or.inl (List.mem_filterMap.1 hkept)
  · obtain ⟨s, hs, hrow⟩ := List.mem_filterMap.1 hinserted
    exact Or.inr ⟨s, (List.mem_filter.1 hs).1, hrow⟩

/-- What becomes of a target row is in the result. -/
theorem mem_execute {rows : List T} (h : m.execute target source = some rows) {t row : T}
    (ht : t ∈ target) (hrow : m.mergeTarget source t = some row) : row ∈ rows := by
  rw [Merge.execute, Option.ite_none_left_eq_some] at h
  rw [← Option.some.inj h.2]
  exact List.mem_append_left _ (List.mem_filterMap.2 ⟨t, ht, hrow⟩)

/-- What is inserted for a source row without a match is in the result. -/
theorem mem_execute_of_unmatched {rows : List T} (h : m.execute target source = some rows) {s : S}
    {row : T} (hs : s ∈ source) (hon : ∀ t ∈ target, ¬m.on t s = true)
    (hrow : m.notMatched s = some row) : row ∈ rows := by
  rw [Merge.execute, Option.ite_none_left_eq_some] at h
  rw [← Option.some.inj h.2]
  refine List.mem_append_right _ (List.mem_filterMap.2 ⟨s, List.mem_filter.2 ⟨hs, ?_⟩, hrow⟩)
  rw [Bool.not_eq_true', List.any_eq_false]
  exact hon

/-- With distinct source keys the merge does not fail. -/
theorem execute_of_nodup (hm : m.Keyed targetKey sourceKey)
    (hsource : (source.map sourceKey).Nodup) :
    m.execute target source = some (target.filterMap (m.mergeTarget source) ++
      (m.unmatched target source).filterMap m.notMatched) := by
  rw [Merge.execute, if_neg]
  simp only [List.any_eq_true, decide_eq_true_eq, not_exists, not_and, Nat.not_lt]
  intro t _
  refine le_of_eq_of_le ?_ (Relational.length_filter_eq_le_one hsource (targetKey t))
  congr 1
  refine List.filter_congr fun s _ ↦ ?_
  rw [Bool.eq_iff_iff, hm.on_iff, decide_eq_true_eq]

/-- **A merge acts key by key**: with distinct keys on both sides it succeeds, keeps the keys
distinct, and the row of a key depends on that key's rows alone. -/
theorem execute_spec (hm : m.Keyed targetKey sourceKey) (htarget : (target.map targetKey).Nodup)
    (hsource : (source.map sourceKey).Nodup) :
    ∃ result, m.execute target source = some result ∧ (result.map targetKey).Nodup ∧
      ∀ k, lookup targetKey k result =
        m.mergeKey (lookup targetKey k target) (lookup sourceKey k source) := by
  have hmatched : ∀ t ∈ target, ∀ t', m.mergeTarget source t = some t' →
      targetKey t' = targetKey t := by
    intro t _ t' h
    rw [Merge.mergeTarget, find?_on hm] at h
    cases hs : lookup sourceKey (targetKey t) source with
    | some s =>
      rw [hs] at h
      exact Merge.key_applyMatched hm (mem_of_lookup hs).2.symm h
    | none =>
      rw [hs] at h
      simp only [Option.ite_none_left_eq_some, Option.some.injEq] at h
      rw [h.2]
  have hinserted : ∀ s ∈ m.unmatched target source, ∀ t, m.notMatched s = some t →
      targetKey t = sourceKey s := fun s _ t ↦ hm.key_notMatched s t
  have hunmatched : ((m.unmatched target source).map sourceKey).Nodup :=
    hsource.sublist (List.filter_sublist.map sourceKey)
  -- an unmatched source row has a key no target row has
  have hmem : ∀ s, s ∈ m.unmatched target source ↔
      s ∈ source ∧ lookup targetKey (sourceKey s) target = none := by
    intro s
    rw [Merge.unmatched, List.mem_filter, lookup_eq_none]
    refine and_congr_right fun _ ↦ ?_
    simp only [Bool.not_eq_eq_eq_not, Bool.not_true, List.any_eq_false, hm.on_iff]
  refine ⟨_, execute_of_nodup hm hsource, ?_, fun k ↦ ?_⟩
  · rw [List.map_append, List.nodup_append]
    refine ⟨nodup_map_filterMap htarget hmatched, nodup_map_filterMap hunmatched hinserted, ?_⟩
    intro a ha b hb hab
    obtain ⟨t', ht', rfl⟩ := List.mem_map.1 ha
    obtain ⟨t, ht, hmerge⟩ := List.mem_filterMap.1 ht'
    obtain ⟨u, hu, rfl⟩ := List.mem_map.1 hb
    obtain ⟨s, hs, hins⟩ := List.mem_filterMap.1 hu
    have hnone := ((hmem s).1 hs).2
    rw [← hinserted s hs u hins, ← hab, hmatched t ht t' hmerge] at hnone
    exact lookup_eq_none.1 hnone t ht rfl
  · rw [lookup_append, lookup_filterMap htarget hmatched, lookup_filterMap hunmatched hinserted]
    cases ht : lookup targetKey k target with
    | some t =>
      have hnone : lookup sourceKey k (m.unmatched target source) = none := by
        rw [lookup_eq_none]
        intro s hs hk
        have hno := ((hmem s).1 hs).2
        rw [hk, ht] at hno
        exact Option.some_ne_none t hno
      obtain ⟨-, rfl⟩ := mem_of_lookup ht
      rw [hnone, Option.bind_none, Option.or_none, Option.bind_some, Merge.mergeTarget, find?_on hm]
      cases lookup sourceKey (targetKey t) source <;> rfl
    | none =>
      have hsame : lookup sourceKey k (m.unmatched target source) = lookup sourceKey k source := by
        cases hs : lookup sourceKey k source with
        | none => exact lookup_eq_none.2 fun s hin ↦ lookup_eq_none.1 hs s ((hmem s).1 hin).1
        | some s =>
          obtain ⟨hin, rfl⟩ := mem_of_lookup hs
          exact (lookup_eq_some_iff hunmatched).2 ⟨(hmem s).2 ⟨hin, ht⟩, rfl⟩
      rw [hsame, Option.bind_none, Option.none_or]
      cases lookup sourceKey k source <;> rfl

end Lookup

end MergeInto
