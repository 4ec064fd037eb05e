import LakehousePipeline.Gold.Releases

/-!
# What a release shows

The four kinds of run come down to two descriptions of a published release. A full run publishes the
latest rows of every table, all of them built by the run and passed by its gate (`FullRelease`). An
incremental run publishes the latest rows of the tables it has jobs for and otherwise what the
previous release shows; the facts are merged over the latest ones when orders are affected, and else
are those of the version after the pinned one (`IncrementalRelease`). A run that finds metadata
changes only is an incremental run without jobs and affected orders.

## The facts are the exception

A dimension without a job keeps the version its last release has pinned. The facts have no pin of
their own that is kept: the release is stored as a property of the fact table, and setting the
property is a commit. So a run that leaves the facts alone records the version after the pinned one,
`pinned + 1`, and what that version has is either the commit of the property or, if a run in between
wrote facts and was refused by its gate, the facts of that run. `facts_kept` says this as the code
has it; which runs come upon such facts is the matter of the modules that use it.

## What is carried over

The two descriptions name the tables by what a run leaves in them (`GoldRun.dimensionState`), not by
the branches of `runGold`. Later modules start from `RunStep.release` and never unfold a run.
-/

namespace LakehousePipeline

open TableLog

variable {fns : SparkFunctions} {hash : BusinessHash} {run : GoldRun} {s s' : GoldState}
  {changed : GoldTable → Bool} {built : GoldSnapshot}

/-- What a full run publishes. -/
structure FullRelease (fns : SparkFunctions) (run : GoldRun) (s' : GoldState)
    (changed : GoldTable → Bool) (built : GoldSnapshot) : Prop where
  changed_eq : ∀ t, changed t = true
  published_eq : s'.published = s'.latest
  mem_built : ∀ t, ∀ row ∈ s'.latest t, row ∈ built t
  gate : qualityRun s'.latest (run.lake.rows .orders) (run.lake.rows .orderItems) = .ok ()
  dimensions : ∀ t ∈ scd2Dimensions, s'.latest t = fullDimensions fns run.lake t
  checkpoint : s'.checkpoint = some (run.lake.historyVersion .appUsers)

/-- What an incremental run publishes. -/
structure IncrementalRelease (fns : SparkFunctions) (run : GoldRun) (s s' : GoldState)
    (previous : GoldRelease) (changes : SilverChanges) (changed : GoldTable → Bool)
    (built : GoldSnapshot) : Prop where
  active : s.activeRelease = some previous
  incremental : run.fullRebuild = false
  changed_eq : ∀ t, changed t =
    ((run.jobs fns s changes t).isSome || (t = .factSales && !(run.orderIds changes).isEmpty))
  perform_eq : ∀ t, t ≠ .factSales →
    (run.jobs fns s changes).perform s t = some (s'.tables t)
  built_eq : ∀ t job, run.jobs fns s changes t = some job → built t = job.built
  published_eq : ∀ t, t ≠ .factSales → s'.published t =
    if (run.jobs fns s changes t).isSome then s'.latest t else s.published t
  facts_kept : run.orderIds changes = [] → s'.published .factSales =
    rowsAt (commit (s.tables .factSales) (s.latest .factSales))
      (previous.goldVersions .factSales + 1)
  facts_merged : run.orderIds changes ≠ [] →
    (∀ f ∈ (built .factSales : List FactRow), ∀ reference ∈ foreignKeys,
      reference.2 f ∈ s'.latest.members reference.1) ∧
    ∃ result, mergeFacts (s.latest .factSales) (built .factSales) (run.orderIds changes) =
      some result ∧ s'.published .factSales = result.rows
  checkpoint : s'.checkpoint = (run.dimensionState (run.jobs fns s changes) s).checkpoint

/-! ### Full runs -/

/-- The facts of no items at all. -/
theorem orderItems_eq_nil_of_buildFactSales {tables : FactSources} {dimensions : FactDimensions}
    (h : buildFactSales fns tables dimensions = []) : tables.orderItems = [] := by
  have hperm := Window.map_overPartition_perm JoinedItem.orderId
    (fun a b : JoinedItem ↦ b.item.key ≤ a.item.key) (f := factRow fns) (g := fun _ ↦ ())
    (h := fun _ ↦ ()) (fun _ _ _ ↦ rfl) (joinedItems fns tables dimensions)
  have hnil : joinedItems fns tables dimensions = [] := by
    rw [buildFactSales] at h
    rw [h] at hperm
    exact List.map_eq_nil_iff.1 (List.nil_perm.1 hperm)
  simpa only [joinedItems, Relational.leftJoinWith_eq_nil_iff, List.map_eq_nil_iff] using hnil

/-- The latest rows after an `upsert_table`. -/
theorem latestRows_upsertTable {t : GoldTable} {options : UpsertOptions (GoldKey t)}
    {rows : List (GoldRow t)} {log : List (List (GoldRow t))} {result : UpsertResult (GoldRow t)}
    (h : upsertTable (keyedColumns (goldKey t)) options
      (if log.isEmpty then none else some (latestRows log)) rows = some result) :
    latestRows (if result.written then commit log result.rows else log) = result.rows := by
  split at h
  · rw [← Option.some.inj h, if_pos rfl, latestRows_commit]
  · rw [upsertTable] at h
    split at h
    · rw [← Option.some.inj h, if_neg Bool.false_ne_true]
    · obtain ⟨merged, -, rfl⟩ := Option.map_eq_some_iff.1 h
      rw [if_pos rfl, latestRows_commit]

/-- The rows a full run leaves in a table, unless it had no row to write. -/
theorem mem_of_perform_fullJob {replace : Bool} {t : GoldTable} {rows : List (GoldRow t)}
    {log log' : List (List (GoldRow t))}
    (h : (fullJob replace t rows).perform log = some log') {row : GoldRow t}
    (hrow : row ∈ latestRows log') : row ∈ rows ∨ rows = [] := by
  rw [fullJob] at h
  split at h
  · rw [← Option.some.inj h, latestRows_commit] at hrow
    exact Or.inl hrow
  · obtain ⟨result, hresult, rfl⟩ := Option.map_eq_some_iff.1 h
    rw [latestRows_upsertTable hresult] at hrow
    split at hresult
    · rw [← Option.some.inj hresult] at hrow
      exact Or.inl hrow
    · exact (mem_of_upsertTable rfl hresult hrow).imp_right fun hkept ↦ hkept.2.2.2 rfl

/-- A dimension has an unknown member in every full run. -/
theorem fullDimensions_ne_nil (fns : SparkFunctions) (lake : SilverLake) {t : GoldTable}
    (ht : t ≠ .factSales) : fullDimensions fns lake t ≠ [] := by
  cases t with
  | factSales => exact absurd rfl ht
  | _ => exact List.cons_ne_nil _ _

/-- The job of a dimension in a full run writes all its members. -/
theorem fullJobs_of_ne {lake : SilverLake} {replace : Bool} {t : GoldTable} (ht : t ≠ .factSales) :
    fullJobs fns lake replace t = some (fullJob replace t (fullDimensions fns lake t)) :=
  if_neg ht

/-- An SCD2 dimension is overwritten in a full run, also where other tables are merged. -/
theorem fullJob_of_mem_scd2Dimensions {replace : Bool} {t : GoldTable} (ht : t ∈ scd2Dimensions)
    (rows : List (GoldRow t)) : fullJob replace t rows = .overwrite rows := by
  rw [fullJob, if_pos]
  rw [decide_eq_true ht, Bool.or_true]

section Full

variable {log : List (List (GoldRow .factSales))}
  (hjobs : ∀ t, (fullJobs fns run.lake run.fullRebuild).perform s t =
    some ((run.dimensionState (fullJobs fns run.lake run.fullRebuild) s).tables t))

include hjobs

/-- The job of a dimension in a full run. -/
theorem perform_fullJobs {t : GoldTable} (ht : t ≠ .factSales) :
    (fullJob run.fullRebuild t (fullDimensions fns run.lake t)).perform (s.tables t) =
      some ((run.dimensionState (fullJobs fns run.lake run.fullRebuild) s).tables t) := by
  have hjob := hjobs t
  rwa [GoldJobs.perform, fullJobs_of_ne ht] at hjob

/-- **A full run publishes what it built.** -/
theorem fullRelease_publish {facts : List (GoldRow .factSales)}
    (hitems : facts = [] → run.lake.rows .orderItems = [])
    (hfacts : (fullJob run.fullRebuild .factSales facts).perform
      ((run.dimensionState (fullJobs fns run.lake run.fullRebuild) s).tables .factSales) = some log)
    (hgate : qualityRun ((run.dimensionState (fullJobs fns run.lake run.fullRebuild) s).withFacts
      log).latest (run.lake.rows .orders) (run.lake.rows .orderItems) = .ok ()) :
    FullRelease fns run
      (((run.dimensionState (fullJobs fns run.lake run.fullRebuild) s).withFacts log).publish
        (currentSilverVersions run) (fun _ ↦ true) fun _ ↦ 0)
      (fun _ ↦ true) ((fullJobs fns run.lake run.fullRebuild).built.withFacts facts) := by
  have hfactRows : ((run.dimensionState (fullJobs fns run.lake run.fullRebuild) s).withFacts
      log).latest .factSales = latestRows log := by
    rw [GoldState.latest, GoldState.withFacts_factSales]
  have hdimRows : ∀ {t : GoldTable}, t ≠ .factSales →
      ((run.dimensionState (fullJobs fns run.lake run.fullRebuild) s).withFacts log).latest t =
        latestRows ((run.dimensionState (fullJobs fns run.lake run.fullRebuild) s).tables t) := by
    intro t ht
    rw [GoldState.latest, GoldState.withFacts_of_ne ht]
  constructor
  case changed_eq => exact fun _ ↦ rfl
  case published_eq =>
    funext t
    rw [GoldState.latest_publish]
    rcases eq_or_ne t .factSales with rfl | ht
    · rw [GoldState.published_publish_factSales _ _ _ _ (tables_ne_nil_of_full hjobs hfacts _),
        if_pos rfl]
    · rw [GoldState.published_publish_of_ne ht, if_pos rfl]
  case mem_built =>
    intro t row hrow
    rw [GoldState.latest_publish] at hrow
    rcases eq_or_ne t .factSales with rfl | ht
    · rw [GoldSnapshot.withFacts_factSales]
      rcases mem_of_perform_fullJob hfacts (hfactRows ▸ hrow) with hbuilt | hnil
      · exact hbuilt
      · -- nothing was written over old facts: the gate has counted them
        have hlength := length_of_qualityRun hgate
        rw [hitems hnil] at hlength
        rw [List.length_eq_zero_iff.1 hlength.symm] at hrow
        exact absurd hrow List.not_mem_nil
    · rw [GoldSnapshot.withFacts_of_ne _ _ ht, GoldJobs.built, fullJobs_of_ne ht]
      have hbuilt : (fullJob run.fullRebuild t (fullDimensions fns run.lake t)).built =
          fullDimensions fns run.lake t := by
        rw [fullJob]
        split <;> rfl
      show row ∈ (fullJob run.fullRebuild t (fullDimensions fns run.lake t)).built
      rw [hbuilt]
      exact (mem_of_perform_fullJob (perform_fullJobs hjobs ht) (hdimRows ht ▸ hrow)).resolve_right
        (fullDimensions_ne_nil fns run.lake ht)
  case gate =>
    rw [GoldState.latest_publish]
    exact hgate
  case dimensions =>
    intro t ht
    -- only the facts are written after the dimensions
    have hne : t ≠ .factSales := by
      rintro rfl
      exact absurd ht (by decide)
    have hjob := perform_fullJobs hjobs hne
    rw [fullJob_of_mem_scd2Dimensions ht] at hjob
    rw [GoldState.latest_publish, hdimRows hne, ← Option.some.inj hjob, latestRows_commit]
  case checkpoint =>
    have hjob := hjobs .dimCustomer
    show (if _ then some (run.lake.historyVersion .appUsers) else s.checkpoint) = _
    rw [hjob, fullJobs_of_ne (by decide), fullJob_of_mem_scd2Dimensions (by decide)]
    rfl

end Full

/-! ### Incremental runs -/

/-- The facts have no dimension job; they come after the dimensions. -/
theorem incrementalJobs_factSales (fns : SparkFunctions) (lake : SilverLake)
    (changes : SilverChanges) (checkpoint : Option ℕ) (gold : GoldSnapshot) :
    incrementalJobs fns lake changes checkpoint gold .factSales = none := rfl

/-- Without changes there is nothing to do. -/
theorem incrementalJobs_eq_none {lake : SilverLake} {changes : SilverChanges}
    (h : ∀ t, changes t = none) (checkpoint : Option ℕ) (gold : GoldSnapshot) (t : GoldTable) :
    incrementalJobs fns lake changes checkpoint gold t = none := by
  cases t <;> simp [incrementalJobs, h]

/-- Without changes no order is affected. -/
theorem affectedOrderIds_eq_nil {changes : SilverChanges} (h : ∀ t, changes t = none)
    (orderVouchers : List OrderVoucher) : affectedOrderIds changes orderVouchers = [] := by
  have hids : ∀ (t : SilverTable) (column : SilverRow ℤ (SilverColumns t) → Option ℤ),
      changedIds changes t column = [] := by
    intro t column
    rw [changedIds, h t]
    rfl
  simp [affectedOrderIds, changedKeys, hids]

/-- What the previous release shows of a table. -/
theorem published_eq_rowsAt {previous : GoldRelease} (hactive : s.activeRelease = some previous)
    (t : GoldTable) : s.published t = rowsAt (s.tables t) (previous.goldVersions t) := by
  rw [GoldState.published_eq_view hactive]
  rfl

/-- **A run that finds metadata changes only shows what the previous release shows.** -/
theorem incrementalRelease_metadataOnly (hpins : s.PinsExist) {previous : GoldRelease}
    (hactive : s.activeRelease = some previous) (hincremental : run.fullRebuild = false)
    {changes : SilverChanges} (hnone : ∀ t, changes t = none) (silverVersions : SilverTable → ℕ) :
    IncrementalRelease fns run s
      (s.publish silverVersions (fun _ ↦ false) previous.goldVersions) previous changes
      (fun _ ↦ false) fun _ ↦ [] := by
  have hjobs : ∀ t, run.jobs fns s changes t = none := incrementalJobs_eq_none hnone _ _
  have horders : run.orderIds changes = [] := affectedOrderIds_eq_nil hnone _
  constructor
  case active => exact hactive
  case incremental => exact hincremental
  case changed_eq =>
    intro t
    rw [hjobs, horders]
    simp
  case perform_eq =>
    intro t ht
    rw [GoldJobs.perform, hjobs]
    show some (s.tables t) = some ((s.withFacts _).tables t)
    rw [GoldState.withFacts_of_ne ht]
  case built_eq =>
    intro t job hjob
    rw [hjobs] at hjob
    cases hjob
  case published_eq =>
    intro t ht
    rw [GoldState.published_publish_of_ne ht, hjobs, published_eq_rowsAt hactive]
    rfl
  case facts_kept =>
    intro _
    have hlength := hpins previous (GoldState.activeRelease_mem hactive) .factSales
    rw [GoldState.published_publish_factSales _ _ _ _
      (List.ne_nil_of_length_pos (Nat.zero_lt_of_lt hlength))]
    rfl
  case facts_merged => exact fun hne ↦ absurd horders hne
  case checkpoint =>
    show s.checkpoint = if _ then _ else s.checkpoint
    rw [hjobs]
    simp

/-- The fact step without affected orders writes nothing. -/
theorem incrementalFacts_nil {gold : GoldSnapshot} {tables : FactSources}
    {result : UpsertResult FactRow} (h : incrementalFacts fns gold tables [] = .ok (some result)) :
    result.written = false := by
  rw [incrementalFacts, if_pos rfl] at h
  rw [← Option.some.inj (Except.ok.inj h)]

/-- The fact step with affected orders has passed its gate and merged. -/
theorem incrementalFacts_of_ne_nil {gold : GoldSnapshot} {tables : FactSources}
    {orderIds : List ℤ} (hne : orderIds ≠ []) {result : UpsertResult FactRow}
    (h : incrementalFacts fns gold tables orderIds = .ok (some result)) :
    (∀ f ∈ rebuiltFacts fns tables gold.factDimensions orderIds, ∀ reference ∈ foreignKeys,
      reference.2 f ∈ gold.members reference.1) ∧
    mergeFacts (gold .factSales) (rebuiltFacts fns tables gold.factDimensions orderIds) orderIds =
      some result := by
  rw [incrementalFacts, if_neg hne] at h
  obtain ⟨⟨⟩, hgate, hmerge⟩ := Checks.exists_of_bind_eq_ok h
  exact ⟨refs_of_qualityRunIncremental hgate, Except.ok.inj hmerge⟩

/-- No foreign key refers to the facts. -/
theorem ne_factSales_of_mem_foreignKeys {reference : GoldTable × (FactRow → ℤ)}
    (h : reference ∈ foreignKeys) : reference.1 ≠ .factSales := by
  have hall : (foreignKeys.map Prod.fst).all (· ≠ .factSales) = true := by decide
  exact of_decide_eq_true (List.all_eq_true.1 hall _ (List.mem_map_of_mem h))

section Increment

variable {previous : GoldRelease} {changes : SilverChanges}
  (hjobs : ∀ t, (run.jobs fns s changes).perform s t =
    some ((run.dimensionState (run.jobs fns s changes) s).tables t))

include hjobs

/-- A table without a job is left alone. -/
theorem tables_eq_of_no_job {t : GoldTable} (ht : run.jobs fns s changes t = none) :
    (run.dimensionState (run.jobs fns s changes) s).tables t = s.tables t := by
  have hjob := hjobs t
  rw [GoldJobs.perform, ht] at hjob
  exact (Option.some.inj hjob).symm

/-- **An incremental run publishes its jobs and its facts**, and what the previous release shows. -/
theorem incrementalRelease_publish (hpins : s.PinsExist)
    (hactive : s.activeRelease = some previous) (hincremental : run.fullRebuild = false)
    {result : UpsertResult FactRow}
    (hfacts : incrementalFacts fns (run.dimensionState (run.jobs fns s changes) s).latest
      run.lake.factSources (run.orderIds changes) = .ok (some result))
    {facts : List (GoldRow .factSales)}
    (hbuilt : facts = rebuiltFacts fns run.lake.factSources
      (run.dimensionState (run.jobs fns s changes) s).latest.factDimensions (run.orderIds changes))
    (silverVersions : SilverTable → ℕ) :
    IncrementalRelease fns run s
      (((run.dimensionState (run.jobs fns s changes) s).withMerged result).publish silverVersions
        (fun t ↦ (run.jobs fns s changes t).isSome ||
          (t = .factSales && !(run.orderIds changes).isEmpty)) previous.goldVersions)
      previous changes
      (fun t ↦ (run.jobs fns s changes t).isSome ||
        (t = .factSales && !(run.orderIds changes).isEmpty))
      ((run.jobs fns s changes).built.withFacts facts) := by
  have hfactTable := tables_eq_of_no_job hjobs (incrementalJobs_factSales _ _ _ _ _)
  have hfactRows : (run.dimensionState (run.jobs fns s changes) s).latest .factSales =
      s.latest .factSales := by
    rw [GoldState.latest, hfactTable]
    rfl
  have hextends := (GoldState.extends_afterJobs s run.lake (run.jobs fns s changes)
    (fun _ ↦ true) true).trans (GoldState.extends_withMerged _ result)
  -- the facts of the active release exist, so their table has a commit
  have hne : ((run.dimensionState (run.jobs fns s changes) s).withMerged result).tables
      .factSales ≠ [] :=
    List.ne_nil_of_length_pos (Nat.zero_lt_of_lt
      ((hpins _ (GoldState.activeRelease_mem hactive) .factSales).trans_le
        (hextends.tables .factSales).length_le))
  have hdimRows : ∀ {t : GoldTable}, t ≠ .factSales →
      ((run.dimensionState (run.jobs fns s changes) s).withMerged result).latest t =
        (run.dimensionState (run.jobs fns s changes) s).latest t := by
    intro t ht
    rw [GoldState.latest, GoldState.latest, GoldState.withMerged_of_ne ht]
  constructor
  case active => exact hactive
  case incremental => exact hincremental
  case changed_eq => exact fun _ ↦ rfl
  case perform_eq =>
    intro t ht
    rw [hjobs t]
    show _ = some ((GoldState.withFacts _ _).tables t)
    rw [GoldState.withFacts_of_ne ht, GoldState.withMerged_of_ne ht]
  case built_eq =>
    intro t job hjob
    have ht : t ≠ .factSales := by
      rintro rfl
      cases hjob
    rw [GoldSnapshot.withFacts_of_ne _ _ ht, GoldJobs.built, hjob]
    rfl
  case published_eq =>
    intro t ht
    rw [GoldState.published_publish_of_ne ht, GoldState.latest_publish]
    -- a dimension without a job stays at the version that is pinned
    cases hjob : run.jobs fns s changes t with
    | some job => rfl
    | none =>
      simp only [Option.isSome_none, Bool.false_or, ht, decide_false, Bool.false_and,
        Bool.false_eq_true, if_false]
      rw [GoldState.withMerged_of_ne ht, tables_eq_of_no_job hjobs hjob,
        published_eq_rowsAt hactive]
  case facts_kept =>
    intro hnil
    rw [hnil] at hfacts
    have hmerged : (run.dimensionState (run.jobs fns s changes) s).withMerged result =
        run.dimensionState (run.jobs fns s changes) s := by
      rw [GoldState.withMerged, incrementalFacts_nil hfacts, if_neg Bool.false_ne_true]
    rw [GoldState.published_publish_factSales _ _ _ _ hne, hmerged, hnil, if_neg, hfactTable,
      hfactRows]
    exact Bool.false_ne_true
  case facts_merged =>
    intro hcons
    obtain ⟨hrefs, hmerge⟩ := incrementalFacts_of_ne_nil hcons hfacts
    refine ⟨?_, result, ?_, ?_⟩
    · intro f hf reference hreference
      rw [GoldState.latest_publish, GoldSnapshot.members,
        hdimRows (ne_factSales_of_mem_foreignKeys hreference)]
      rw [GoldSnapshot.withFacts_factSales, hbuilt] at hf
      exact hrefs f hf reference hreference
    · rw [GoldSnapshot.withFacts_factSales, hbuilt, ← hfactRows]
      exact hmerge
    · rw [GoldState.published_publish_factSales _ _ _ _ hne, if_pos]
      · show latestRows ((GoldState.withMerged _ result).tables .factSales) = result.rows
        rw [GoldState.withMerged]
        split
        · rw [GoldState.withFacts_factSales]
          exact latestRows_commit _ _
        · -- the merge has changed no row, and no commit was made
          rename_i hwritten
          exact (rows_of_not_written _ _ hmerge (Bool.not_eq_true _ ▸ hwritten)).symm
      · rw [List.isEmpty_eq_false_iff.2 hcons]
        simp
  case checkpoint =>
    show (GoldState.withMerged _ result).checkpoint = _
    rw [GoldState.withMerged]
    split <;> rfl

end Increment

/-- **What a published release shows.** -/
theorem RunStep.release (h : RunStep fns hash run s s' (.published changed built))
    (hpins : s.PinsExist) : FullRelease fns run s' changed built ∨
      ∃ previous, IncrementalRelease fns run s s' previous
        (changesSince hash run previous.silverVersions) changed built := by
  cases h with
  | unpublished _ _ houtcome => exact absurd rfl (houtcome _ _)
  | full _ hjobs hfacts hgate =>
    exact Or.inl (fullRelease_publish hjobs orderItems_eq_nil_of_buildFactSales hfacts hgate)
  | metadataOnly hactive hincremental hnone =>
    exact Or.inr ⟨_, incrementalRelease_metadataOnly hpins hactive hincremental hnone _⟩
  | @incremental previous hactive hincremental changes hchanges result hjobs hfacts =>
    subst hchanges
    exact Or.inr ⟨previous,
      incrementalRelease_publish hjobs hpins hactive hincremental hfacts rfl _⟩

end LakehousePipeline
