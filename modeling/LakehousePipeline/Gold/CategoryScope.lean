import LakehousePipeline.Gold.CategoryJoin
import LakehousePipeline.Gold.ScopedReplay

/-!
# The scope of the category step

The category step replays the changed categories and their children, the affected ones, and reads
the parents of their rows along with them, since a version has the name of its parent. But the
replay does not tell them apart: it writes the versions of all categories it reads, and a parent
that is there only to be read may have a parent of its own that is not. Its versions are then
written without the name of that parent, beside those it had (`not_leavesCategories_renamed`). That
takes three levels; where every parent that a category in the scope is joined to is in the scope
too, the step leaves `dim_category` as the full build of the later history (`leavesCategories`).

## Three sets of categories

The changed categories have an image in the feed; the affected ones are these and their children;
the scope is what is read, the affected ones and the parents their rows name. The step deletes
versions of the affected categories only, and replays the scope. So a category that is in the scope
and not affected has to be replayed to what it had: `ClosedScope` asks that the parents it is joined
to are in the scope as well, for then all its events are read (`CategoryStep.mem_scoped_iff`), and
as none of them is new the replay gives its old versions (`CategoryStep.mem_unaffected_iff`).

Key 0 and the surrogate keys enter only through the merge, which needs those of the full build to be
distinct; they are fields of `CategoryStep`.
-/

namespace LakehousePipeline

open TableLog

/-- **A category step** over a table that was built from the earlier history. -/
structure CategoryStep (fns : SparkFunctions) (lake : SilverLake) (changes : SilverChanges)
    (log : List (List (GoldRow .dimCategory)))
    (history₀ newRows : List (HistoryRow ℤ CategoryColumns)) : Prop where
  /-- The category events, the new ones last. -/
  history : lake.history .categories = history₀ ++ newRows
  /-- The table exists. -/
  nonempty : log ≠ []
  /-- The table is the full build of the earlier history. -/
  existing : List.Perm (α := CategoryRow) (latestRows log) (buildDimCategory fns true history₀)
  /-- The changed ids cover the new events. -/
  changed : ∀ c ∈ newRows, c.key ∈ changedKeys changes .categories
  /-- The keys of the earlier build are distinct. The gate of a full build demands it, that of an
  incremental run does not look for duplicate keys. -/
  keys₀ : ((buildDimCategory fns true history₀).map fun row ↦ row.surrogateKey).Nodup
  /-- So are the keys of the later build, though no gate may have seen it. -/
  keys : ((buildDimCategory fns true (history₀ ++ newRows)).map fun row ↦ row.surrogateKey).Nodup
  /-- The hashed ids of the earlier joined events do not collide. -/
  ids₀ : IdsApart (categoryEvents fns history₀)
  /-- Nor do those of the later ones. -/
  ids : IdsApart (categoryEvents fns (history₀ ++ newRows))

/-- **What the step has to leave**: the full build of the later history. -/
def LeavesCategories (fns : SparkFunctions) (lake : SilverLake) (changes : SilverChanges)
    (log : List (List (GoldRow .dimCategory))) : Prop :=
  ∃ log', (categoryJob fns lake changes (latestRows log)).perform log = some log' ∧
    List.Perm (α := CategoryRow) (latestRows log')
      (buildDimCategory fns true (lake.history .categories))

/-- **The scope is closed**: a parent that a category in the scope is joined to is in the scope. -/
def ClosedScope (fns : SparkFunctions) (history : List (HistoryRow ℤ CategoryColumns))
    (scopeIds : List ℤ) : Prop :=
  ∀ category ∈ historyStates fns CategoryColumns.updatedAt history, category.row.key ∈ scopeIds →
    ∀ parent ∈ historyStates fns CategoryColumns.updatedAt history,
      category.row.payload.parentCategoryId = some parent.row.key → category.Overlaps parent →
        parent.row.key ∈ scopeIds

/-! ### The events of a category depend on its states and the parent states it overlaps -/

section Events

variable {fns : SparkFunctions} {history history' : List (HistoryRow ℤ CategoryColumns)} {k : ℤ}

/-- The events of a category depend on its states and on those of its parents. -/
theorem mem_eventsOfKey_of_statesOf_eq
    (hstates : statesOf fns CategoryColumns.updatedAt history k =
      statesOf fns CategoryColumns.updatedAt history' k)
    (hparents : ∀ category ∈ statesOf fns CategoryColumns.updatedAt history k, ∀ parent,
      category.row.payload.parentCategoryId = some parent.row.key → category.Overlaps parent →
        (parent ∈ statesOf fns CategoryColumns.updatedAt history parent.row.key ↔
          parent ∈ statesOf fns CategoryColumns.updatedAt history' parent.row.key))
    (e : Scd2Event CategoryAttributes Empty ℤ) :
    e ∈ eventsOfKey (categoryEvents fns history) k ↔
      e ∈ eventsOfKey (categoryEvents fns history') k := by
  rw [mem_eventsOfKey_categoryEvents, mem_eventsOfKey_categoryEvents, ← hstates]
  refine exists_congr fun category ↦ and_congr_right fun hcategory ↦ ?_
  have hparent := hparents category hcategory
  constructor
  · rintro (⟨parent, hmem, hname, hoverlap, rfl⟩ | ⟨hno, rfl⟩)
    · exact Or.inl ⟨parent, (hparent parent hname hoverlap).1 hmem, hname, hoverlap, rfl⟩
    · exact Or.inr ⟨fun parent hmem hname hoverlap ↦
        hno parent ((hparent parent hname hoverlap).2 hmem) hname hoverlap, rfl⟩
  · rintro (⟨parent, hmem, hname, hoverlap, rfl⟩ | ⟨hno, rfl⟩)
    · exact Or.inl ⟨parent, (hparent parent hname hoverlap).2 hmem, hname, hoverlap, rfl⟩
    · exact Or.inr ⟨fun parent hmem hname hoverlap ↦
        hno parent ((hparent parent hname hoverlap).1 hmem) hname hoverlap, rfl⟩

/-- The states of a category in the scope are all there. -/
theorem statesOf_filterIds {ids : List ℤ} (hk : k ∈ ids) :
    statesOf fns CategoryColumns.updatedAt (filterIds (fun row ↦ some row.key) ids history) k =
      statesOf fns CategoryColumns.updatedAt history k :=
  statesOf_congr (filter_key_filterIds hk history)

/-- Of the other categories there are none. -/
theorem key_mem_of_mem_statesOf {ids : List ℤ} {s : HistoryState ℤ CategoryColumns}
    (hs : s ∈ statesOf fns CategoryColumns.updatedAt
      (filterIds (fun row ↦ some row.key) ids history) k) : k ∈ ids := by
  obtain ⟨hmem, rfl⟩ := mem_history_of_mem_statesOf hs
  obtain ⟨-, id, hid, hkey⟩ := mem_filterIds.1 hmem
  rwa [Option.some.inj hkey]

/-- A joined event belongs to a row of its category. -/
theorem exists_row_of_mem_categoryEvents {e : Scd2Event CategoryAttributes Empty ℤ}
    (he : e ∈ eventsOfKey (categoryEvents fns history) k) :
    ∃ s, s ∈ statesOf fns CategoryColumns.updatedAt history k := by
  obtain ⟨category, hcategory, -⟩ := mem_eventsOfKey_categoryEvents.1 he
  exact ⟨category, hcategory⟩

end Events

/-! ### The scope -/

section Scope

variable {history : List (HistoryRow ℤ CategoryColumns)} {changedIds : List ℤ}

/-- A category is affected if it has changed or has had a changed one for a parent. -/
theorem mem_affectedCategoryIds {k : ℤ} : k ∈ affectedCategoryIds history changedIds ↔
    k ∈ changedIds ∨
      ∃ c ∈ history, c.key = k ∧ ∃ id ∈ changedIds, c.payload.parentCategoryId = some id := by
  rw [affectedCategoryIds, List.mem_append, List.mem_map]
  refine or_congr_right (exists_congr fun c ↦ ?_)
  rw [mem_filterIds, and_assoc, and_comm (a := c.key = k)]

/-- What is affected is in the scope. -/
theorem affected_mem_scope {k : ℤ} (h : k ∈ affectedCategoryIds history changedIds) :
    k ∈ categoryScopeIds history changedIds :=
  List.mem_append_left _ h

end Scope

namespace CategoryStep

variable {fns : SparkFunctions} {lake : SilverLake} {changes : SilverChanges}
  {log : List (List (GoldRow .dimCategory))}
  {history₀ newRows : List (HistoryRow ℤ CategoryColumns)}
  (h : CategoryStep fns lake changes log history₀ newRows) {k : ℤ}

include h

/-- A category that is not affected has the events it had. -/
theorem mem_unaffected_iff
    (hk : k ∉ affectedCategoryIds (history₀ ++ newRows) (changedKeys changes .categories))
    (e : Scd2Event CategoryAttributes Empty ℤ) :
    e ∈ eventsOfKey (categoryEvents fns history₀) k ↔
      e ∈ eventsOfKey (categoryEvents fns (history₀ ++ newRows)) k := by
  -- an id without new rows has the states it had
  have hsame : ∀ {k : ℤ}, k ∉ changedKeys changes .categories →
      statesOf fns CategoryColumns.updatedAt history₀ k =
        statesOf fns CategoryColumns.updatedAt (history₀ ++ newRows) k := by
    intro k hk
    have hnone : (newRows.filter fun c ↦ c.key = k) = [] :=
      List.filter_eq_nil_iff.2 fun c hc hkey ↦ hk (of_decide_eq_true hkey ▸ h.changed c hc)
    refine statesOf_congr ?_
    rw [List.filter_append, hnone, List.append_nil]
  refine mem_eventsOfKey_of_statesOf_eq
    (hsame fun hin ↦ hk (mem_affectedCategoryIds.2 (Or.inl hin)))
    (fun category hcategory parent hname _ ↦ ?_) e
  rw [hsame fun hin ↦ ?_]
  obtain ⟨hmem, hkey⟩ := mem_history_of_mem_statesOf hcategory
  exact hk (mem_affectedCategoryIds.2 (Or.inr ⟨category.row, List.mem_append_left _ hmem, hkey,
    parent.row.key, hin, hname⟩))

omit h in
/-- In a closed scope the replay sees all events of a category. -/
theorem mem_scoped_iff {history : List (HistoryRow ℤ CategoryColumns)} {ids : List ℤ}
    (hclosed : ClosedScope fns history ids) (hk : k ∈ ids)
    (e : Scd2Event CategoryAttributes Empty ℤ) :
    e ∈ eventsOfKey (categoryEvents fns (filterIds (fun row ↦ some row.key) ids history)) k ↔
      e ∈ eventsOfKey (categoryEvents fns history) k := by
  refine mem_eventsOfKey_of_statesOf_eq (statesOf_filterIds hk)
    (fun category hcategory parent hname hoverlap ↦ ?_) e
  rw [statesOf_filterIds hk] at hcategory
  refine ⟨fun hparent ↦ ?_, fun hparent ↦ ?_⟩
  · rwa [← statesOf_filterIds (key_mem_of_mem_statesOf hparent)]
  · have hin := hclosed category hcategory.1 (hcategory.2 ▸ hk) parent hparent.1 hname hoverlap
    rwa [statesOf_filterIds hin]

variable (hclosed : ClosedScope fns (history₀ ++ newRows)
  (categoryScopeIds (history₀ ++ newRows) (changedKeys changes .categories)))

include hclosed

/-- The ids of the joined events in the scope do not collide. -/
theorem idsApart_scoped : IdsApart (categoryEvents fns (filterIds (fun row ↦ some row.key)
    (categoryScopeIds (history₀ ++ newRows) (changedKeys changes .categories))
    (history₀ ++ newRows))) := by
  refine h.ids.mono fun e he ↦ ?_
  obtain ⟨k, hkey⟩ : ∃ k, e.sourceKey = some k := by
    rw [categoryEvents, List.mem_map] at he
    obtain ⟨o, -, rfl⟩ := he
    exact ⟨_, rfl⟩
  have hevent := mem_eventsOfKey.2 ⟨he, hkey⟩
  obtain ⟨s, hs⟩ := exists_row_of_mem_categoryEvents hevent
  exact (mem_eventsOfKey.1 ((mem_scoped_iff hclosed (key_mem_of_mem_statesOf hs) e).1 hevent)).1

/-- **A closed scope is a scoped replay.** -/
theorem scopedReplay : ScopedReplay (fun row : CategoryRow ↦ row.sourceKey)
    (affectedCategoryIds (history₀ ++ newRows) (changedKeys changes .categories))
    (replaySingleEntityScd2 fns (categoryEvents fns history₀))
    (replaySingleEntityScd2 fns (categoryEvents fns (history₀ ++ newRows)))
    (replaySingleEntityScd2 fns (categoryEvents fns (filterIds (fun row ↦ some row.key)
      (categoryScopeIds (history₀ ++ newRows) (changedKeys changes .categories))
      (history₀ ++ newRows))))
    (· ∈ categoryScopeIds (history₀ ++ newRows) (changedKeys changes .categories)) := by
  have hids := h.idsApart_scoped hclosed
  have hkeyed : ∀ {history : List (HistoryRow ℤ CategoryColumns)} (k : ℤ),
      ∀ e ∈ eventsOfKey (categoryEvents fns history) k, e.sourceKey = some k :=
    fun _ _ he ↦ (mem_eventsOfKey.1 he).2
  have hunaffected : ∀ {k : ℤ},
      k ∉ affectedCategoryIds (history₀ ++ newRows) (changedKeys changes .categories) →
        ((replaySingleEntityScd2 fns (categoryEvents fns history₀)).filter
            fun row ↦ row.sourceKey = some k) =
          (replaySingleEntityScd2 fns (categoryEvents fns (history₀ ++ newRows))).filter
            fun row ↦ row.sourceKey = some k := by
    intro k hk
    rw [filter_replay_eq h.ids₀, filter_replay_eq h.ids]
    exact replay_congr (h.ids₀.eventsOfKey k) (hkeyed k) (h.mem_unaffected_iff hk)
  constructor
  · intro row hin
    obtain ⟨k, hkey⟩ := exists_sourceKey_of_mem_replay hin
    obtain ⟨e, he, -⟩ := exists_event_of_mem_replay (hids.eventsOfKey k) (hkeyed k)
      (mem_replay_eventsOfKey hids hin hkey)
    obtain ⟨s, hs⟩ := exists_row_of_mem_categoryEvents he
    exact ⟨k, hkey, key_mem_of_mem_statesOf hs⟩
  · intro k hk
    rw [filter_replay_eq hids, filter_replay_eq h.ids]
    exact replay_congr (hids.eventsOfKey k) (hkeyed k) (mem_scoped_iff hclosed hk)
  · intro k _ row hin hkey
    by_cases hk : k ∈ affectedCategoryIds (history₀ ++ newRows) (changedKeys changes .categories)
    · exact Or.inr ⟨k, hk, hkey⟩
    · -- a parent that is there to be read has the versions it had
      exact Or.inl ((mem_iff_of_filter_eq (hunaffected hk) hkey).1 hin)
  · exact fun k hk ↦ hunaffected fun hin ↦ hk (affected_mem_scope hin)
  · intro k hk row _ hkey id hid hmember
    obtain rfl : k = id := Option.some.inj (hkey.symm.trans hmember)
    exact hk (affected_mem_scope hid)

end CategoryStep

/-- **The category step leaves the full build of the later history**, if its scope is closed. -/
theorem leavesCategories {fns : SparkFunctions} {lake : SilverLake} {changes : SilverChanges}
    {log : List (List (GoldRow .dimCategory))}
    {history₀ newRows : List (HistoryRow ℤ CategoryColumns)}
    (h : CategoryStep fns lake changes log history₀ newRows)
    (hclosed : ClosedScope fns (history₀ ++ newRows)
      (categoryScopeIds (history₀ ++ newRows) (changedKeys changes .categories))) :
    LeavesCategories fns lake changes log := by
  have hbuild : ∀ history, buildDimCategory fns true history =
      unknownMember unknownCategory ::
        replaySingleEntityScd2 fns (categoryEvents fns history) := fun _ ↦ by
    rw [buildDimCategory, withUnknown_true]
  obtain ⟨result, hresult, hperm⟩ := (h.scopedReplay hclosed).perm_upsertReplayed unknownCategory
    (fun _ hrow ↦ exists_sourceKey_of_mem_replay hrow)
    (fun _ hrow ↦ exists_sourceKey_of_mem_replay hrow) rfl (hbuild _ ▸ h.existing)
    (hbuild _ ▸ h.keys₀) (hbuild _ ▸ h.keys)
  rw [← hbuild, ← h.history] at hperm
  have hreplayed : replayedCategories fns (lake.history .categories)
      (changedKeys changes .categories) = replaySingleEntityScd2 fns (categoryEvents fns
        (filterIds (fun row ↦ some row.key) (categoryScopeIds (lake.history .categories)
          (changedKeys changes .categories)) (lake.history .categories))) := by
    show buildDimCategory fns false _ = _
    rw [buildDimCategory, withUnknown_false]
  rw [← h.history, ← hreplayed] at hresult
  obtain ⟨log', hlog', hrows⟩ :=
    TableJob.exists_perform_upsert (t := .dimCategory) h.nonempty rfl hresult
  exact ⟨log', hlog', (List.Perm.of_eq hrows).trans hperm⟩

/-! ### A category that is renamed below two others -/

/-- An event of a category, created at 1, whose id is its name. -/
def categoryEventAt (key : ℤ) (parent : Option ℤ) (time : Timestamp) (name : Char) :
    HistoryRow ℤ CategoryColumns where
  key := key
  createdAt := 1
  payload := ⟨parent, some [name], some [name], some true, some time⟩
  operation := .update
  eventOccurredAt := some time
  historyEventId := [name]
  ingestionMode := .cdc
  order := ⟨some 1, some time, none, none, none, none⟩

/-- Category 3 below 2, which has the given parent; category 1 has none. -/
def categoryTree (parent : Option ℤ) : List (HistoryRow ℤ CategoryColumns) :=
  [categoryEventAt 1 none 1 'a', categoryEventAt 2 parent 1 'b', categoryEventAt 3 (some 2) 1 'c']

/-- Category 3 is renamed at 30. -/
def renamedCategory : HistoryRow ℤ CategoryColumns := categoryEventAt 3 (some 2) 30 'd'

/-- Silver after category 3 was renamed. -/
def renamedCategoryLake (parent : Option ℤ) : SilverLake where
  tables _ := []
  histories
    | .categories => [categoryTree parent, [renamedCategory]]
    | .products | .productVariants | .appUsers | .shops | .userAddresses | .vouchers | .orders
    | .orderItems | .orderVouchers | .payments | .shipments => []

/-- The changed row of category 3. -/
def renamedCategoryChanges : SilverChanges
  | .categories => some [⟨.updatePostimage, smallRow 3 renamedCategory.payload⟩]
  | .products | .productVariants | .appUsers | .shops | .userAddresses | .vouchers | .orders
  | .orderItems | .orderVouchers | .payments | .shipments => none

/-- `dim_category` before category 3 was renamed. -/
def categoryTreeTable (parent : Option ℤ) : List (List (GoldRow .dimCategory)) :=
  commit [] (buildDimCategory .plain true (categoryTree parent))

/-- The rename is a category step, with and without a third level. -/
theorem categoryStep_renamed {parent : Option ℤ} (h : parent = none ∨ parent = some 1) :
    CategoryStep .plain (renamedCategoryLake parent) renamedCategoryChanges
      (categoryTreeTable parent) (categoryTree parent) [renamedCategory] := by
  have hexisting : List.Perm (α := CategoryRow) (latestRows (categoryTreeTable parent))
      (buildDimCategory .plain true (categoryTree parent)) :=
    List.Perm.of_eq (latestRows_commit (R := GoldRow .dimCategory) [] _)
  have hnonempty : categoryTreeTable parent ≠ [] := List.cons_ne_nil _ _
  rcases h with rfl | rfl
  all_goals exact
    { history := rfl
      nonempty := hnonempty
      existing := hexisting
      changed := by decide
      keys₀ := by decide +kernel
      keys := by decide +kernel
      ids₀ := idsApart_of_nodup (by decide +kernel)
      ids := idsApart_of_nodup (by decide +kernel) }

/-- Below a root, the category and its parent are all there is to read. -/
theorem leavesCategories_renamed : LeavesCategories .plain (renamedCategoryLake none)
    renamedCategoryChanges (categoryTreeTable none) :=
  leavesCategories (categoryStep_renamed (Or.inl rfl)) (by unfold ClosedScope; decide +kernel)

/-- **Below two others, the parent is written again without the name of its own**: it has two
versions at once. -/
theorem not_leavesCategories_renamed :
    CategoryStep .plain (renamedCategoryLake (some 1)) renamedCategoryChanges
        (categoryTreeTable (some 1)) (categoryTree (some 1)) [renamedCategory] ∧
      ¬LeavesCategories .plain (renamedCategoryLake (some 1)) renamedCategoryChanges
        (categoryTreeTable (some 1)) := by
  refine ⟨categoryStep_renamed (Or.inr rfl), fun ⟨log', hlog', hperm⟩ ↦ ?_⟩
  have htwo : ((categoryJob .plain (renamedCategoryLake (some 1)) renamedCategoryChanges
      (latestRows (categoryTreeTable (some 1)))).perform (categoryTreeTable (some 1))).map
        (fun log ↦ (coveringRows (latestRows log : List CategoryRow) 2 10).length) = some 2 := by
    decide +kernel
  have hone : (coveringRows (buildDimCategory .plain true
      ((renamedCategoryLake (some 1)).history .categories)) 2 10).length = 1 := by decide +kernel
  have hlength := (hperm.filter fun row ↦ row.sourceKey = some 2 ∧ row.Covers 10).length_eq
  rw [hlog'] at htwo
  have hsame := (Option.some.inj htwo).symm.trans (hlength.trans hone)
  exact absurd hsame (by decide)

end LakehousePipeline
