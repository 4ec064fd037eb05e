import LakehousePipeline.Gold.Builder
import LakehousePipeline.Gold.Scd2Instants
import LakehousePipeline.Gold.Scd2Keys

/-!
# Scoped replays

An incremental run replays the entities in a scope and merges them over a dimension. What the table
holds of the affected members under keys that the replay no longer gives is deleted, everything else
is kept. So the table is the full replay of the later history if the entities in the scope are
replayed whole and all others have the versions they had (`ScopedReplay`, `perm_upsertReplayed`).

## What has to be shown of a scope

The scope is a set of entities, the affected members a list of ids, and for a dimension whose
members are its entities these are the same. They differ for products and categories, where a change
of one entity affects the versions of others. So `ScopedReplay` keeps them apart and asks of an
entity in the scope that it is replayed whole and that what is gone of it belongs to an affected
member, and of any other that its versions stay and belong to none. For entities without events of
others this comes down to the last of these (`scopedReplay_of_rows`).

The merge works on surrogate keys. Where those of the full replay are distinct, with that of the
unknown member among them, each of its rows is found under its own key, and the result is compared
row by row.
-/

namespace LakehousePipeline

open TableLog

variable {A κ V : Type} {memberId : Scd2Row A κ V → Option ℤ} {ids : List ℤ}
  {rows₀ rows replayed existing : List (Scd2Row A κ V)} {inScope : ℤ → Prop}

/-- A read of the history of a set of ids holds all rows of each. -/
theorem filter_key_filterIds {P : Type} {k : ℤ} (hk : k ∈ ids) (history : List (HistoryRow ℤ P)) :
    ((filterIds (fun row ↦ some row.key) ids history).filter fun row ↦ row.key = k) =
      history.filter fun row ↦ row.key = k := by
  rw [filterIds, List.filter_filter]
  refine List.filter_congr fun row _ ↦ ?_
  by_cases hkey : row.key = k
  · simp [hkey, hk]
  · simp [hkey]

/-- **What a scoped replay has to be** to turn the versions `rows₀` into `rows`. -/
structure ScopedReplay (memberId : Scd2Row A κ V → Option ℤ) (ids : List ℤ)
    (rows₀ rows replayed : List (Scd2Row A κ V)) (inScope : ℤ → Prop) : Prop where
  /-- Entities in the scope are replayed. -/
  scope : ∀ row ∈ replayed, ∃ k, row.sourceKey = some k ∧ inScope k
  /-- They are replayed whole. -/
  whole : ∀ k, inScope k → (replayed.filter fun row ↦ row.sourceKey = some k) =
    rows.filter fun row ↦ row.sourceKey = some k
  /-- Of their versions, those that are no longer there belong to affected members. -/
  stale : ∀ k, inScope k → ∀ row ∈ rows₀, row.sourceKey = some k →
    row ∈ rows ∨ ∃ id ∈ ids, memberId row = some id
  /-- The other entities have the versions they had. -/
  unchanged : ∀ k, ¬inScope k → (rows₀.filter fun row ↦ row.sourceKey = some k) =
    rows.filter fun row ↦ row.sourceKey = some k
  /-- Their versions belong to no affected member. -/
  kept : ∀ k, ¬inScope k → ∀ row ∈ rows₀, row.sourceKey = some k →
    ∀ id ∈ ids, memberId row ≠ some id

/-- Tables with the same rows of an entity. -/
theorem mem_iff_of_filter_eq {rows rows' : List (Scd2Row A κ V)} {k : ℤ}
    (h : (rows.filter fun row ↦ row.sourceKey = some k) =
      rows'.filter fun row ↦ row.sourceKey = some k) {row : Scd2Row A κ V}
    (hkey : row.sourceKey = some k) : row ∈ rows ↔ row ∈ rows' := by
  have hmem : ∀ {rows : List (Scd2Row A κ V)},
      row ∈ rows ↔ row ∈ rows.filter fun row ↦ row.sourceKey = some k := fun {rows} ↦ by
    rw [List.mem_filter, decide_eq_true_eq, and_iff_left hkey]
  rw [hmem, h, ← hmem]

namespace ScopedReplay

variable (h : ScopedReplay memberId ids rows₀ rows replayed inScope)

include h

/-- What is replayed is a row of the full replay. -/
theorem mem_rows_of_mem_replayed {row : Scd2Row A κ V} (hrow : row ∈ replayed) : row ∈ rows := by
  obtain ⟨k, hkey, hk⟩ := h.scope row hrow
  exact (mem_iff_of_filter_eq (h.whole k hk) hkey).1 hrow

/-- The replayed keys are distinct, as those of the full replay are. -/
theorem nodup_replayed [DecidableEq (Scd2Row A κ V)]
    (hrows : (rows.map fun row ↦ row.surrogateKey).Nodup) :
    (replayed.map fun row ↦ row.surrogateKey).Nodup := by
  have hnodup : replayed.Nodup := by
    refine List.nodup_iff_count_le_one.2 fun row ↦ ?_
    by_cases hrow : row ∈ replayed
    · obtain ⟨k, hkey, hk⟩ := h.scope row hrow
      have hcount : ∀ rows : List (Scd2Row A κ V),
          (rows.filter fun row ↦ row.sourceKey = some k).count row = rows.count row :=
        fun rows ↦ List.count_filter (decide_eq_true hkey)
      rw [← hcount, h.whole k hk, hcount]
      exact List.nodup_iff_count_le_one.1 hrows.of_map row
    · rw [List.count_eq_zero_of_not_mem hrow]
      exact Nat.zero_le 1
  refine hnodup.map_on fun row hrow row' hrow' heq ↦ ?_
  exact List.inj_on_of_nodup_map hrows (h.mem_rows_of_mem_replayed hrow)
    (h.mem_rows_of_mem_replayed hrow') heq

/-- **The merge of a scoped replay leaves the full replay.** -/
theorem perm_upsertReplayed [DecidableEq (Scd2Row A κ V)] (unknown : A)
    (hkeyed₀ : ∀ row ∈ rows₀, ∃ k, row.sourceKey = some k)
    (hkeyed : ∀ row ∈ rows, ∃ k, row.sourceKey = some k)
    (hunknown : memberId (unknownMember unknown) = none)
    (hexisting : existing.Perm (unknownMember unknown :: rows₀))
    (hnodup₀ : ((unknownMember unknown :: rows₀).map fun row ↦ row.surrogateKey).Nodup)
    (hnodup : ((unknownMember unknown :: rows).map fun row ↦ row.surrogateKey).Nodup) :
    ∃ result, upsertTable (keyedColumns fun row : Scd2Row A κ V ↦ row.surrogateKey)
        (scopeOptions (staleKeys memberId existing replayed ids) true) (some existing) replayed =
          some result ∧ result.rows.Perm (unknownMember unknown :: rows) := by
  have hexistingNodup : (existing.map fun row ↦ row.surrogateKey).Nodup :=
    (hexisting.map _).nodup_iff.2 hnodup₀
  have hstale : ∀ {k : ℤ}, k ∈ staleKeys memberId existing replayed ids ↔
      (∃ row ∈ existing, (∃ id ∈ ids, memberId row = some id) ∧ row.surrogateKey = k) ∧
        k ∉ replayed.map fun row ↦ row.surrogateKey := by
    intro k
    simp [staleKeys, mem_filterIds, and_assoc]
  obtain ⟨result, hresult, hresultNodup, hmem⟩ := mem_upsertTable_scope
    (staleKeys memberId existing replayed ids) true hexistingNodup
    (h.nodup_replayed (List.nodup_cons.1 hnodup).2)
    fun row hrow hin ↦ (hstale.1 hin).2 (List.mem_map_of_mem hrow)
  refine ⟨result, hresult, (List.perm_ext_iff_of_nodup hresultNodup.of_map hnodup.of_map).2
    fun row ↦ (hmem row).trans ?_⟩
  -- a row of the table is deleted if it belongs to an affected member
  have hkept : ∀ {row : Scd2Row A κ V}, row ∈ existing →
      (row.surrogateKey ∉ replayed.map fun row ↦ row.surrogateKey) →
        (row.surrogateKey ∉ staleKeys memberId existing replayed ids ↔
          ∀ id ∈ ids, memberId row ≠ some id) := by
    intro row hrow hnew
    rw [hstale, and_iff_left hnew]
    refine ⟨fun hno id hid hmember ↦ hno ⟨row, hrow, ⟨id, hid, hmember⟩, rfl⟩, ?_⟩
    rintro hno ⟨row', hrow', ⟨id, hid, hmember⟩, heq⟩
    rw [List.inj_on_of_nodup_map hexistingNodup hrow' hrow heq] at hmember
    exact hno id hid hmember
  -- a row of the full replay whose key is replayed is replayed
  have hreplayed : ∀ {row : Scd2Row A κ V}, row ∈ unknownMember unknown :: rows →
      (row.surrogateKey ∈ replayed.map fun row ↦ row.surrogateKey) → row ∈ replayed := by
    intro row hrow hin
    obtain ⟨row', hrow', heq⟩ := List.mem_map.1 hin
    rwa [← List.inj_on_of_nodup_map hnodup
      (List.mem_cons_of_mem _ (h.mem_rows_of_mem_replayed hrow')) hrow heq]
  constructor
  · rintro (hrow | ⟨hrow, hnew, hold⟩)
    · exact List.mem_cons_of_mem _ (h.mem_rows_of_mem_replayed hrow)
    · rw [hkept hrow hnew] at hold
      rcases List.mem_cons.1 (hexisting.mem_iff.1 hrow) with rfl | hrow₀
      · exact List.mem_cons_self
      · obtain ⟨k, hkey⟩ := hkeyed₀ row hrow₀
        by_cases hk : inScope k
        · rcases h.stale k hk row hrow₀ hkey with hin | ⟨id, hid, hmember⟩
          · exact List.mem_cons_of_mem _ hin
          · exact absurd hmember (hold id hid)
        · exact List.mem_cons_of_mem _ ((mem_iff_of_filter_eq (h.unchanged k hk) hkey).1 hrow₀)
  · intro hrow
    by_cases hin : row.surrogateKey ∈ replayed.map fun row ↦ row.surrogateKey
    · exact Or.inl (hreplayed hrow hin)
    · refine Or.inr ?_
      rcases List.mem_cons.1 hrow with rfl | hrows
      · have hrow₀ := hexisting.mem_iff.2 List.mem_cons_self
        refine ⟨hrow₀, hin, (hkept hrow₀ hin).2 fun id _ ↦ ?_⟩
        rw [hunknown]
        exact nofun
      · obtain ⟨k, hkey⟩ := hkeyed row hrows
        have hk : ¬inScope k := fun hk ↦
          hin (List.mem_map_of_mem ((mem_iff_of_filter_eq (h.whole k hk) hkey).2 hrows))
        have hrows₀ := (mem_iff_of_filter_eq (h.unchanged k hk) hkey).2 hrows
        have hrow₀ := hexisting.mem_iff.2 (List.mem_cons_of_mem _ hrows₀)
        exact ⟨hrow₀, hin, (hkept hrow₀ hin).2 (h.kept k hk row hrows₀ hkey)⟩

end ScopedReplay

/-! ### Entities of their own -/

section Rows

variable {P : Type} {fns : SparkFunctions} {event : HistoryRow ℤ P → Scd2Event A κ V}
  {history₀ history : List (HistoryRow ℤ P)}

/-- The events of an entity are those of its rows. -/
theorem eventsOfKey_map (hevent : ∀ row, (event row).sourceKey = some row.key)
    (history : List (HistoryRow ℤ P)) (k : ℤ) : eventsOfKey (history.map event) k =
      (history.filter fun row ↦ row.key = k).map event := by
  rw [eventsOfKey, List.filter_map]
  congr 1
  refine List.filter_congr fun row _ ↦ ?_
  show decide ((event row).sourceKey = some k) = decide (row.key = k)
  simp only [hevent, Option.some_inj]

/-- **A replay of the entities of a set of ids is a scoped replay**, where an entity has no events
but its own and the others have the versions they had. -/
theorem scopedReplay_of_rows (hevent : ∀ row, (event row).sourceKey = some row.key)
    (hids₀ : IdsApart (history₀.map event)) (hids : IdsApart (history.map event))
    (hunchanged : ∀ k ∉ ids, replaySingleEntityScd2 fns (eventsOfKey (history₀.map event) k) =
      replaySingleEntityScd2 fns (eventsOfKey (history.map event) k)) :
    ScopedReplay (fun row ↦ row.sourceKey) ids (replaySingleEntityScd2 fns (history₀.map event))
      (replaySingleEntityScd2 fns (history.map event))
      (replaySingleEntityScd2 fns ((filterIds (fun row ↦ some row.key) ids history).map event))
      (· ∈ ids) := by
  have hscoped : IdsApart ((filterIds (fun row ↦ some row.key) ids history).map event) :=
    hids.mono (List.filter_sublist.map event).subset
  constructor
  · intro row hrow
    obtain ⟨k, hkey⟩ := exists_sourceKey_of_mem_replay hrow
    obtain ⟨e, he, -⟩ := exists_event_of_mem_replay (hscoped.eventsOfKey k)
      (fun _ he ↦ (mem_eventsOfKey.1 he).2) (mem_replay_eventsOfKey hscoped hrow hkey)
    rw [eventsOfKey_map hevent] at he
    obtain ⟨r, hr, rfl⟩ := List.mem_map.1 he
    obtain ⟨hin, hk⟩ := List.mem_filter.1 hr
    obtain ⟨-, id, hid, hrid⟩ := mem_filterIds.1 hin
    exact ⟨k, hkey, of_decide_eq_true hk ▸ Option.some.inj hrid ▸ hid⟩
  · intro k hk
    rw [filter_replay_eq hscoped, filter_replay_eq hids, eventsOfKey_map hevent,
      eventsOfKey_map hevent, filter_key_filterIds hk]
  · exact fun k hk row _ hkey ↦ Or.inr ⟨k, hk, hkey⟩
  · intro k hk
    rw [filter_replay_eq hids₀, filter_replay_eq hids, hunchanged k hk]
  · intro k hk row _ hkey id hid hmember
    obtain rfl : k = id := Option.some.inj (hkey.symm.trans hmember)
    exact hk hid

end Rows

/-- A merge into a table that exists commits its result. -/
theorem TableJob.exists_perform_upsert {t : GoldTable} {log : List (List (GoldRow t))}
    (hlog : log ≠ []) {df : List (GoldRow t)} {options : UpsertOptions (GoldKey t)}
    (hpreserve : options.preserveTargetOnSoftDelete = false) {result : UpsertResult (GoldRow t)}
    (hresult : upsertTable (keyedColumns (goldKey t)) options (some (latestRows log)) df =
      some result) :
    ∃ log', (TableJob.upsert df options hpreserve).perform log = some log' ∧
      latestRows log' = result.rows := by
  have hempty : log.isEmpty = false := by simpa using hlog
  refine ⟨if result.written then commit log result.rows else log, ?_, ?_⟩
  · rw [TableJob.perform, hempty, if_neg Bool.false_ne_true, hresult, Option.map_some]
  · rcases hwritten : result.written with - | -
    · exact (rows_of_not_written _ _ hresult hwritten).symm
    · exact latestRows_commit log result.rows

end LakehousePipeline
