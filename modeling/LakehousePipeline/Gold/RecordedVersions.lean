import LakehousePipeline.Gold.Progress
import LakehousePipeline.Gold.ReleaseContent

/-!
# The Silver a release was built from

A Gold stage fixes the Silver versions it starts from, records them in its release and bounds the
change feeds by them. The rows of the tables, and the change histories, it reads live. In between
another writer may have committed: the manifest of a batch run is taken under an earlier lock, and
it is read again only when it is behind the active release. Then the rows of a release come from
Silver commits that are later than the versions it records.

To say what Silver was, the lakehouse remembers the change history as it was at each commit of its
table (`historyAt`); the rows of a version the Delta log has anyway. A publication keeps what a Gold
stage was given and what it built. A stage does not read all of Silver: an incremental one reads the
current rows of some changed tables and the change histories of the changed SCD2 sources. As long
as these are what they were at the versions the stage starts from, every publication has the rows
of the versions it records (`reflects_of_silverAsRecorded`). What else of Silver has moved on does
not matter, since a run cannot tell it apart (`rebuiltRows_on`).

## Reading less

Whether a run can tell two states of Silver apart depends on its changes: a table without changes
is not read for its own sake. `readsRows` and `readsHistory` are the reads of the jobs, table by
table, and `SameSources` says that two states agree on them. Each job has a congruence lemma, and
`incrementalJobs_congr` collects these by the changes that make a run perform the job. A full run is
treated as one with changes everywhere.

## The invariant

`Faithful` is what holds in every reachable state. Three of its fields keep the past where it is:
there is one remembered history for each commit, no release is ahead of Silver, and every recorded
version exists; so a later commit changes nothing of what Silver was at a recorded version
(`asOf_step`). The fourth is the result. A publication keeps its own copy of the run, so the only
step at which anything has to be proved is the one that publishes.

A stage whose Silver has moved on where it reads makes no promise: there the release mixes versions
(`publication_mixes_versions`).
-/

namespace LakehousePipeline

/-! ### What a run rebuilds -/

section Run

variable (fns : SparkFunctions) (hash : BusinessHash) (run : GoldRun) (s : GoldState)

/-- The versions a run starts from, which its release records. -/
def recordedVersions : SilverTable → ℕ :=
  match s.activeRelease with
  | none => currentSilverVersions run
  | some previous =>
    if run.fullRebuild then currentSilverVersions run
    else refreshedVersions run previous.silverVersions

/-- The rows of a full run. -/
def fullRows : GoldSnapshot :=
  let jobs := fullJobs fns run.lake run.fullRebuild
  jobs.built.withFacts
    (buildFactSales fns run.lake.factSources (run.dimensionState jobs s).latest.factDimensions)

/-- The rows of an incremental run. -/
def incrementalRows (changes : SilverChanges) : GoldSnapshot :=
  let jobs := run.jobs fns s changes
  jobs.built.withFacts (rebuiltFacts fns run.lake.factSources
    (run.dimensionState jobs s).latest.factDimensions (run.orderIds changes))

/-- The rows a run computes from the Silver it reads. -/
def rebuiltRows : GoldSnapshot :=
  match s.activeRelease with
  | none => fullRows fns run s
  | some previous =>
    if run.fullRebuild then fullRows fns run s
    else incrementalRows fns run s (changesSince hash run previous.silverVersions)

/-- The same run on another Silver, with its versions handed to it. -/
def GoldRun.on (lake : SilverLake) (versions : SilverTable → ℕ) : GoldRun :=
  { run with lake := lake, silverManifest := some versions }

end Run

section Published

variable {fns : SparkFunctions} {hash : BusinessHash} {run : GoldRun} {s : GoldState}

/-- Without affected orders there are no facts. -/
theorem rebuiltFacts_nil (tables : FactSources) (dimensions : FactDimensions) :
    rebuiltFacts fns tables dimensions [] = [] := by
  have hitems : (factScope tables []).orderItems = [] :=
    List.filter_eq_nil_iff.2 fun item _ ↦ by simp
  have hjoined : joinedItems fns (factScope tables [])
      (factDimensionScope (factScope tables []) dimensions) = [] := by
    simpa only [joinedItems, Relational.leftJoinWith_eq_nil_iff, List.map_eq_nil_iff] using hitems
  rw [rebuiltFacts, buildFactSales, hjoined]
  rfl

/-- Without changes nothing is rebuilt. -/
theorem incrementalRows_of_no_changes {changes : SilverChanges} (h : ∀ t, changes t = none) :
    incrementalRows fns run s changes = fun _ ↦ [] := by
  have hjobs : ∀ t, run.jobs fns s changes t = none := incrementalJobs_eq_none h _ _
  have hids : run.orderIds changes = [] := affectedOrderIds_eq_nil h _
  have hfacts : ∀ dimensions,
      rebuiltFacts fns run.lake.factSources dimensions (run.orderIds changes) = [] := by
    intro dimensions
    rw [hids]
    exact rebuiltFacts_nil _ _
  funext t
  rcases eq_or_ne t .factSales with rfl | ht
  · exact (GoldSnapshot.withFacts_factSales _ _).trans (hfacts _)
  · refine (GoldSnapshot.withFacts_of_ne _ _ ht).trans ?_
    show ((run.jobs fns s changes t).map TableJob.built).getD [] = []
    rw [hjobs]
    rfl

/-- **What is published is what was rebuilt.** -/
theorem built_eq_rebuiltRows {s' : GoldState} {changed : GoldTable → Bool} {built : GoldSnapshot}
    (h : RunStep fns hash run s s' (.published changed built)) :
    built = rebuiltRows fns hash run s := by
  rw [rebuiltRows]
  cases h with
  | unpublished _ _ houtcome => exact absurd rfl (houtcome changed built)
  | full hor =>
    rcases hactive : s.activeRelease with - | previous
    · rfl
    · have hfull : run.fullRebuild = true := hor.resolve_right (by simp [hactive])
      show _ = if run.fullRebuild then _ else _
      rw [if_pos hfull]
      rfl
  | metadataOnly hactive hfull hnone =>
    rw [hactive]
    show _ = if run.fullRebuild then _ else _
    rw [hfull, if_neg Bool.false_ne_true, incrementalRows_of_no_changes hnone]
  | incremental hactive hfull hchanges =>
    rw [hactive]
    show _ = if run.fullRebuild then _ else _
    rw [hfull, if_neg Bool.false_ne_true, ← hchanges]
    rfl

/-- A release records the versions its run started from. -/
theorem silverVersions_eq_recordedVersions
    (h : (runGold fns hash run s).2.publishes = true) {release : GoldRelease}
    (hactive : (runGold fns hash run s).1.activeRelease = some release) :
    release.silverVersions = recordedVersions run s := by
  obtain ⟨release', hactive', hversions⟩ := activeRelease_of_publishes h
  obtain rfl := Option.some.inj (hactive.symm.trans hactive')
  rw [recordedVersions]
  rcases hversions with ⟨hor, hversions⟩ | ⟨previous, hprevious, hfull, hversions⟩
  · rw [hversions]
    rcases hs : s.activeRelease with - | previous
    · rfl
    · show _ = if run.fullRebuild then _ else _
      rw [if_pos (hor.resolve_right (by simp [hs]))]
  · rw [hversions, hprevious]
    show _ = if run.fullRebuild then _ else _
    rw [hfull, if_neg Bool.false_ne_true]

end Published

/-! ### What a run reads of Silver -/

/-- The tables `fact_sales` is built from. -/
def factTables : List SilverTable :=
  [.orders, .orderItems, .orderVouchers, .vouchers, .payments, .shipments]

/-- Whether a run with these changes reads the rows of a table. -/
def readsRows (changes : SilverChanges) (t : SilverTable) : Bool :=
  if t ∈ factTables then factTables.any fun u ↦ (changes u).isSome
  else t = .userAddresses && (changes t).isSome

/-- Whether it reads the change history of a table, which only the SCD2 dimensions do. -/
def readsHistory (changes : SilverChanges) : SilverTable → Bool
  | .appUsers => (changes .appUsers).isSome
  | .shops => (changes .shops).isSome
  | .categories => (changes .categories).isSome
  | .products | .productVariants =>
    (changes .products).isSome || (changes .productVariants).isSome
  | .userAddresses | .vouchers | .orders | .orderItems | .orderVouchers | .payments
  | .shipments => false

/-- The changes a run works on. A full run treats all tables as changed. -/
def consumedChanges (hash : BusinessHash) (run : GoldRun) (s : GoldState) : SilverChanges :=
  match s.activeRelease with
  | none => fun _ ↦ some []
  | some previous =>
    if run.fullRebuild then fun _ ↦ some [] else changesSince hash run previous.silverVersions

/-- **A run with these changes cannot tell the two apart**: the rows and the change histories it
reads are the same. -/
structure SilverLake.SameSources (changes : SilverChanges) (lake lake' : SilverLake) : Prop where
  rows : ∀ t, readsRows changes t = true → lake'.rows t = lake.rows t
  histories : ∀ t, readsHistory changes t = true → lake'.histories t = lake.histories t

instance (changes : SilverChanges) (lake lake' : SilverLake) :
    Decidable (lake.SameSources changes lake') :=
  decidable_of_iff
    (∀ t ∈ silverTables, (readsRows changes t = true → lake'.rows t = lake.rows t) ∧
      (readsHistory changes t = true → lake'.histories t = lake.histories t))
    ⟨fun h ↦ ⟨fun t ↦ (h t (mem_silverTables t)).1, fun t ↦ (h t (mem_silverTables t)).2⟩,
      fun h t _ ↦ ⟨h.rows t, h.histories t⟩⟩

/-- A change of one of its tables makes a run read the sources of the facts. -/
theorem readsRows_of_isSome {changes : SilverChanges} {t u : SilverTable} (ht : t ∈ factTables)
    (hu : u ∈ factTables) (h : (changes u).isSome = true) : readsRows changes t = true := by
  rw [readsRows, if_pos ht]
  exact List.any_eq_true.2 ⟨u, hu, h⟩

/-- Without one it reads the keys of no order in the feeds. -/
theorem affectedOrderIds_of_factTables {changes : SilverChanges}
    (h : ∀ t ∈ factTables, changes t = none) (orderVouchers : List OrderVoucher) :
    affectedOrderIds changes orderVouchers = [] := by
  have hids : ∀ t ∈ factTables, ∀ column : SilverRow ℤ (SilverColumns t) → Option ℤ,
      changedIds changes t column = [] := by
    intro t ht column
    rw [changedIds, h t ht]
    rfl
  simp only [affectedOrderIds, changedKeys, hids .orders (by decide), hids .orderItems (by decide),
    hids .orderVouchers (by decide), hids .payments (by decide), hids .shipments (by decide),
    hids .vouchers (by decide)]
  simp

section Sources

variable {changes : SilverChanges} {lake lake' : SilverLake} (h : lake.SameSources changes lake')

include h

/-- A change history that is read is the same. -/
theorem SilverLake.SameSources.history {t : SilverTable} (ht : readsHistory changes t = true) :
    lake'.history t = lake.history t := by
  rw [SilverLake.history, h.histories t ht]
  rfl

/-- A change of one of the tables of the facts makes a run read all of them. -/
theorem SilverLake.SameSources.factSources {t : SilverTable} (ht : t ∈ factTables)
    (hchanged : (changes t).isSome = true) : lake'.factSources = lake.factSources := by
  have hrows : ∀ u ∈ factTables, lake'.rows u = lake.rows u := fun u hu ↦
    h.rows u (readsRows_of_isSome hu ht hchanged)
  simp only [SilverLake.factSources, hrows .orders (by decide), hrows .orderItems (by decide),
    hrows .orderVouchers (by decide), hrows .vouchers (by decide), hrows .payments (by decide),
    hrows .shipments (by decide)]

/-- The current rows of the changed keys are read where there are such keys. -/
theorem changedRows_congr {t : SilverTable}
    (ht : (changes t).isSome = true → readsRows changes t = true) :
    changedRows lake' changes t = changedRows lake changes t := by
  rcases hchanged : changes t with - | feed
  · rw [changedRows, changedRows, changedKeys, changedIds, hchanged]
    simp [filterIds]
  · rw [changedRows, changedRows, h.rows t (ht (by rw [hchanged]; rfl))]

/-- In particular for the tables of the facts. -/
theorem changedRows_congr_of_mem {t : SilverTable} (ht : t ∈ factTables) :
    changedRows lake' changes t = changedRows lake changes t :=
  changedRows_congr h fun hchanged ↦ readsRows_of_isSome ht ht hchanged

/-- The customer job reads the history of the users, and no other. -/
theorem customerJob_congr (fns : SparkFunctions) (checkpoint : Option ℕ)
    (existing : List CustomerRow) (hchanged : (changes .appUsers).isSome = true) :
    customerJob fns lake' checkpoint existing = customerJob fns lake checkpoint existing := by
  have hhistories : lake'.histories .appUsers = lake.histories .appUsers := h.histories _ hchanged
  have hversion : lake'.historyVersion .appUsers = lake.historyVersion .appUsers := by
    rw [SilverLake.historyVersion, hhistories]
    rfl
  have hsince : ∀ version,
      lake'.historySince .appUsers version = lake.historySince .appUsers version := by
    intro version
    rw [SilverLake.historySince, hhistories]
    rfl
  have hhistory : lake'.history .appUsers = lake.history .appUsers := h.history hchanged
  rcases checkpoint with - | processed
  · rfl
  · unfold customerJob
    simp only [hversion, hsince, hhistory]

/-- The shop job reads the history of the shops. -/
theorem shopJob_congr (fns : SparkFunctions) (existing : List ShopRow)
    (hchanged : (changes .shops).isSome = true) :
    shopJob fns lake' changes existing = shopJob fns lake changes existing := by
  simp only [shopJob, h.history (t := .shops) hchanged]

/-- The category job reads the history of the categories, of parents too. -/
theorem categoryJob_congr (fns : SparkFunctions) (existing : List CategoryRow)
    (hchanged : (changes .categories).isSome = true) :
    categoryJob fns lake' changes existing = categoryJob fns lake changes existing := by
  simp only [categoryJob, h.history (t := .categories) hchanged]

/-- The product job reads two histories, and a change of either makes it read both. -/
theorem productJob_congr (fns : SparkFunctions) (existing : List ProductRow)
    (hchanged : ((changes .products).isSome || (changes .productVariants).isSome) = true) :
    productJob fns lake' changes existing = productJob fns lake changes existing := by
  simp only [productJob, h.history (t := .products) hchanged,
    h.history (t := .productVariants) hchanged]

/-- The promotion job reads tables of the facts. -/
theorem promotionJob_congr (fns : SparkFunctions) {t : SilverTable} (ht : t ∈ factTables)
    (hchanged : (changes t).isSome = true) :
    promotionJob fns lake' changes = promotionJob fns lake changes := by
  rw [promotionJob, promotionJob, h.factSources ht hchanged,
    h.rows .orderVouchers (readsRows_of_isSome (by decide) ht hchanged)]

/-- **An incremental run gives its jobs what it reads.** -/
theorem incrementalJobs_congr (fns : SparkFunctions) (checkpoint : Option ℕ)
    (gold : GoldSnapshot) : incrementalJobs fns lake' changes checkpoint gold =
      incrementalJobs fns lake changes checkpoint gold := by
  have horders := changedRows_congr_of_mem h (t := .orders) (by decide)
  have hpayments := changedRows_congr_of_mem h (t := .payments) (by decide)
  have hshipments := changedRows_congr_of_mem h (t := .shipments) (by decide)
  have haddresses : changedRows lake' changes .userAddresses =
      changedRows lake changes .userAddresses := changedRows_congr h fun hchanged ↦ by
    rw [readsRows, if_neg (by decide), hchanged]
    rfl
  funext t
  cases t with
  | dimCustomer =>
    refine if_ctx_congr Iff.rfl (fun hchanged ↦ ?_) fun _ ↦ rfl
    exact congrArg some (customerJob_congr h fns checkpoint (gold .dimCustomer) hchanged)
  | dimDate | dimTime =>
    simp only [incrementalJobs, horders]
  | dimLocation =>
    simp only [incrementalJobs, horders, haddresses]
  | dimShop =>
    refine if_ctx_congr Iff.rfl (fun hchanged ↦ ?_) fun _ ↦ rfl
    exact congrArg some (shopJob_congr h fns (gold .dimShop) hchanged)
  | dimCategory =>
    refine if_ctx_congr Iff.rfl (fun hchanged ↦ ?_) fun _ ↦ rfl
    exact congrArg some (categoryJob_congr h fns (gold .dimCategory) hchanged)
  | dimProduct =>
    refine if_ctx_congr Iff.rfl (fun hchanged ↦ ?_) fun _ ↦ rfl
    exact congrArg some (productJob_congr h fns (gold .dimProduct) hchanged)
  | dimPromotion =>
    refine if_ctx_congr Iff.rfl (fun hchanged ↦ ?_) fun _ ↦ rfl
    rcases Bool.or_eq_true_iff.1 hchanged with huses | hvouchers
    · rw [promotionJob_congr h fns (t := .orderVouchers) (by decide) huses]
    · rw [promotionJob_congr h fns (t := .vouchers) (by decide) hvouchers]
  | dimPayment =>
    simp only [incrementalJobs, hpayments]
  | dimShipping =>
    simp only [incrementalJobs, hshipments]
  | factSales => rfl

/-- **What a run computes from the changes depends on what it reads of Silver only.** -/
theorem incrementalRows_congr {fns : SparkFunctions} {run run' : GoldRun} {s : GoldState}
    (hrun : run.lake = lake) (hrun' : run'.lake = lake') :
    incrementalRows fns run' s changes = incrementalRows fns run s changes := by
  have hjobs : run'.jobs fns s changes = run.jobs fns s changes := by
    rw [GoldRun.jobs, GoldRun.jobs, hrun, hrun', incrementalJobs_congr h]
  have hfacts : ∀ dimensions,
      rebuiltFacts fns run'.lake.factSources dimensions (run'.orderIds changes) =
        rebuiltFacts fns run.lake.factSources dimensions (run.orderIds changes) := by
    intro dimensions
    rw [GoldRun.orderIds, GoldRun.orderIds, hrun, hrun']
    by_cases hchanged : ∃ t ∈ factTables, (changes t).isSome = true
    · obtain ⟨t, ht, hchanged⟩ := hchanged
      rw [h.factSources ht hchanged,
        h.rows .orderVouchers (readsRows_of_isSome (by decide) ht hchanged)]
    · -- no order is affected, whatever the tables hold
      have hnone : ∀ t ∈ factTables, changes t = none := fun t ht ↦
        Option.not_isSome_iff_eq_none.1 fun hsome ↦ hchanged ⟨t, ht, hsome⟩
      have hnil : ∀ tables uses,
          rebuiltFacts fns tables dimensions (affectedOrderIds changes uses) = [] := by
        intro tables uses
        rw [affectedOrderIds_of_factTables hnone, rebuiltFacts_nil]
      exact (hnil _ _).trans (hnil _ _).symm
  have hlatest : (run'.dimensionState (run.jobs fns s changes) s).latest =
      (run.dimensionState (run.jobs fns s changes) s).latest := rfl
  simp only [incrementalRows, hjobs, hlatest, hfacts]

/-- And so does what a full run computes, which reads whatever some run reads. -/
theorem fullRows_congr {fns : SparkFunctions} {run run' : GoldRun} {s : GoldState}
    (hall : ∀ t, (changes t).isSome = true) (hrun : run.lake = lake) (hrun' : run'.lake = lake')
    (hreplace : run'.fullRebuild = run.fullRebuild) :
    fullRows fns run' s = fullRows fns run s := by
  have hrows : ∀ t ∈ factTables, lake'.rows t = lake.rows t := fun t ht ↦
    h.rows t (readsRows_of_isSome ht ht (hall t))
  have haddresses : lake'.rows .userAddresses = lake.rows .userAddresses := by
    refine h.rows _ ?_
    rw [readsRows, if_neg (by decide), hall]
    rfl
  have hboth : ((changes .products).isSome || (changes .productVariants).isSome) = true := by
    rw [hall, Bool.true_or]
  have hdimensions : fullDimensions fns lake' = fullDimensions fns lake := by
    funext t
    cases t with
    | dimCustomer => exact congrArg (buildDimCustomer fns true) (h.history (hall .appUsers))
    | dimDate => exact congrArg (buildDimDate fns) (hrows .orders (by decide))
    | dimTime => exact congrArg buildDimTime (hrows .orders (by decide))
    | dimLocation =>
      exact congrArg₂ (buildDimLocation fns) haddresses (hrows .orders (by decide))
    | dimShop => exact congrArg (buildDimShop fns true) (h.history (hall .shops))
    | dimCategory => exact congrArg (buildDimCategory fns true) (h.history (hall .categories))
    | dimProduct =>
      exact congrArg₂ (buildDimProduct fns true) (h.history (t := .products) hboth)
        (h.history (t := .productVariants) hboth)
    | dimPromotion =>
      exact congrArg₂ (buildDimPromotion fns) (hrows .orderVouchers (by decide))
        (hrows .vouchers (by decide))
    | dimPayment => exact congrArg (buildDimPayment fns) (hrows .payments (by decide))
    | dimShipping => exact congrArg (buildDimShipping fns) (hrows .shipments (by decide))
    | factSales => rfl
  have hjobs : fullJobs fns lake' run.fullRebuild = fullJobs fns lake run.fullRebuild := by
    funext t
    rw [fullJobs, fullJobs, hdimensions]
  rw [fullRows, fullRows, hreplace, hrun, hrun', hjobs,
    h.factSources (t := .orders) (by decide) (hall _)]
  rfl

end Sources

section OtherLake

variable {fns : SparkFunctions} {hash : BusinessHash} {run : GoldRun} {s : GoldState}

/-- An incremental run records the versions it refreshes to. -/
theorem recordedVersions_eq_refreshedVersions {previous : GoldRelease}
    (hactive : s.activeRelease = some previous) (hfull : run.fullRebuild = false) :
    recordedVersions run s = refreshedVersions run previous.silverVersions := by
  rw [recordedVersions, hactive]
  show (if run.fullRebuild then _ else _) = _
  rw [hfull, if_neg Bool.false_ne_true]

/-- What is read of a feed ends with the recorded version. -/
theorem readChanges_take {lake lake' : SilverLake} {t : SilverTable} {stop : ℕ}
    (h : lake'.tables t = (lake.tables t).take (stop + 1)) (start : ℕ) :
    lake'.readChanges t start stop = lake.readChanges t start stop := by
  rw [SilverLake.readChanges, SilverLake.readChanges, h, List.take_take, min_self]

/-- **On another Silver, with the same sources and the same commits up to the recorded versions, a
run rebuilds the same rows.** -/
theorem rebuiltRows_on {lake : SilverLake}
    (h : run.lake.SameSources (consumedChanges hash run s) lake)
    (htables : ∀ t, lake.tables t = (run.lake.tables t).take (recordedVersions run s t + 1))
    (hprogress : ∀ previous, s.activeRelease = some previous → run.fullRebuild = false →
      ∀ t, previous.silverVersions t ≤ recordedVersions run s t) :
    rebuiltRows fns hash (run.on lake (recordedVersions run s)) s = rebuiltRows fns hash run s := by
  rcases hactive : s.activeRelease with - | previous
  · rw [rebuiltRows, rebuiltRows, hactive]
    rw [consumedChanges, hactive] at h
    exact fullRows_congr h (fun _ ↦ rfl) rfl rfl rfl
  rcases hfull : run.fullRebuild with - | -
  · have hle := hprogress previous hactive hfull
    have hrecorded := recordedVersions_eq_refreshedVersions hactive hfull
    have hrefreshed : refreshedVersions (run.on lake (recordedVersions run s))
        previous.silverVersions = recordedVersions run s := by
      -- the recorded versions are not behind the release: no refresh is needed
      have hahead : (silverTables.any fun t ↦
          currentSilverVersions (run.on lake (recordedVersions run s)) t <
            previous.silverVersions t) = false :=
        List.any_eq_false.2 fun t _ ↦ by
          rw [decide_eq_true_eq]
          exact not_lt.2 (hle t)
      rw [refreshedVersions, hahead, Bool.and_false, if_neg Bool.false_ne_true]
      rfl
    -- up to the recorded versions the feeds of both lakes are one
    have hchanges : changesSince hash (run.on lake (recordedVersions run s))
        previous.silverVersions = changesSince hash run previous.silverVersions := by
      rw [changesSince, changesSince, hrefreshed, ← hrecorded]
      congr 1
      funext t
      show (if _ then some (lake.readChanges t _ _) else none) = _
      rw [readChanges_take (htables t)]
    rw [rebuiltRows, rebuiltRows, hactive]
    show (if run.fullRebuild then _ else _) = if run.fullRebuild then _ else _
    rw [hfull, if_neg Bool.false_ne_true, if_neg Bool.false_ne_true, hchanges]
    have hconsumed :
        consumedChanges hash run s = changesSince hash run previous.silverVersions := by
      rw [consumedChanges, hactive]
      show (if run.fullRebuild then _ else _) = _
      rw [hfull, if_neg Bool.false_ne_true]
    rw [hconsumed] at h
    exact incrementalRows_congr h rfl rfl
  · rw [rebuiltRows, rebuiltRows, hactive]
    show (if run.fullRebuild then _ else _) = if run.fullRebuild then _ else _
    rw [hfull, if_pos rfl, if_pos rfl]
    have hconsumed : consumedChanges hash run s = fun _ ↦ some [] := by
      rw [consumedChanges, hactive]
      show (if run.fullRebuild then _ else _) = _
      rw [hfull, if_pos rfl]
    rw [hconsumed] at h
    exact fullRows_congr h (fun _ ↦ rfl) rfl rfl rfl

end OtherLake

/-! ### The lakehouse with its past -/

/-- A publication: what a Gold stage was given and what came of it. -/
structure Publication where
  /-- The run, with the Silver it read. -/
  run : GoldRun
  /-- Gold before the run. -/
  before : GoldState
  /-- The release. -/
  release : GoldRelease
  /-- The rows that were rebuilt for it. -/
  built : GoldSnapshot

/-- The publication of a run, if it publishes. -/
def publicationOf (fns : SparkFunctions) (hash : BusinessHash) (run : GoldRun) (s : GoldState) :
    Option Publication :=
  match runGold fns hash run s with
  | (s', .published _ built) => s'.activeRelease.map fun release ↦ ⟨run, s, release, built⟩
  | (_, .upToDate) | (_, .rejected _) | (_, .failed) => none

/-- A lakehouse that remembers. -/
structure RecordedLakehouse (W : Type) extends Lakehouse W where
  /-- The change history of a table at each commit of the table. -/
  historyAt : (t : SilverTable) → List (List (List (HistoryRow ℤ (SilverColumns t))))
  /-- The publications so far. -/
  publications : List Publication

namespace RecordedLakehouse

variable {W : Type} [DecidableEq W] (fns : SparkFunctions) (hash : BusinessHash)

/-- Nothing has happened. -/
def empty : RecordedLakehouse W :=
  { Lakehouse.empty with historyAt := fun _ ↦ [], publications := [] }

/-- Silver as of the given versions. -/
def asOf (world : RecordedLakehouse W) (versions : SilverTable → ℕ) : SilverLake where
  tables t := (world.silver.tables t).take (versions t + 1)
  histories t := (world.historyAt t)[versions t]?.getD []

/-- A Gold stage reads all tables, so it raises before the last of them has been written. -/
def canStart (world : RecordedLakehouse W) : LakehouseAction W → Bool
  | .goldStage _ => silverTables.all fun t ↦ !(world.silver.tables t).isEmpty
  | _ => true

/-- The publications of an action. -/
def publicationsOf (world : RecordedLakehouse W) : LakehouseAction W → List Publication
  | .goldStage stage =>
    ((world.goldRun stage).bind fun run ↦ publicationOf fns hash run world.gold).toList
  | _ => []

/-- One action. The history is that of the new commit: its own rows are appended before the merge,
and a history that is written anew is written in the same action. -/
def step (world : RecordedLakehouse W) (action : LakehouseAction W) :
    Option (RecordedLakehouse W) :=
  if world.canStart action then
    (world.toLakehouse.step fns hash action).map fun after ↦
      { after with
        historyAt := fun t ↦ world.historyAt t ++
          List.replicate ((after.silver.tables t).length - (world.silver.tables t).length)
            (after.silver.histories t)
        publications := world.publications ++ world.publicationsOf fns hash action }
  else none

/-- **A publication reflects the versions it records**: the same run on Silver as of these versions
rebuilds the same rows. -/
def Reflects (world : RecordedLakehouse W) (p : Publication) : Prop :=
  p.built = rebuiltRows fns hash
    (p.run.on (world.asOf p.release.silverVersions) p.release.silverVersions) p.before

/-- **A Gold stage finds what it reads of Silver as it was** at the versions it starts from: those
of its manifest, or the live ones if it has none or one that is behind the active release. A stage
without changes to consume reads nothing. -/
def SilverAsRecorded (world : RecordedLakehouse W) : LakehouseAction W → Prop
  | .goldStage stage => ∀ run ∈ world.goldRun stage,
    world.silver.SameSources (consumedChanges hash run world.gold)
      (world.asOf (recordedVersions run world.gold))
  | _ => True

instance (world : RecordedLakehouse W) :
    (action : LakehouseAction W) → Decidable (world.SilverAsRecorded hash action)
  | .goldStage _ => inferInstanceAs (Decidable (∀ run ∈ _, _))
  | .commit _ _ | .appendHistory _ _ | .mergeTable _ _ _ | .replaceTable _ _ _ _ | .keepTable _ _ =>
    inferInstanceAs (Decidable True)

end RecordedLakehouse

/-! ### Publications reflect the versions they record -/

section Reflect

variable {W : Type} [DecidableEq W] {fns : SparkFunctions} {hash : BusinessHash}

/-- A publication is of a run that publishes. -/
theorem publicationOf_spec {run : GoldRun} {s : GoldState} {p : Publication}
    (h : publicationOf fns hash run s = some p) :
    p.run = run ∧ p.before = s ∧ (runGold fns hash run s).2.publishes = true ∧
      (runGold fns hash run s).1.activeRelease = some p.release ∧
      p.release.silverVersions = recordedVersions run s ∧
      p.built = rebuiltRows fns hash run s := by
  have hstep := runStep_runGold fns hash run s
  rw [publicationOf] at h
  split at h
  · rename_i s' changed built hrun
    rw [hrun] at hstep
    obtain ⟨release, hactive, rfl⟩ := Option.map_eq_some_iff.1 h
    have hpublishes : (runGold fns hash run s).2.publishes = true := by
      rw [hrun]
      rfl
    have hactive : (runGold fns hash run s).1.activeRelease = some release := by
      rw [hrun]
      exact hactive
    exact ⟨rfl, rfl, hpublishes, hactive, silverVersions_eq_recordedVersions hpublishes hactive,
      built_eq_rebuiltRows hstep⟩
  all_goals cases h

namespace RecordedLakehouse

variable {world world' : RecordedLakehouse W}

/-- What every reachable state has: as many histories as commits, nothing ahead of Silver, and
publications of commits that exist, which reflect the versions they record. -/
structure Faithful (fns : SparkFunctions) (hash : BusinessHash) (world : RecordedLakehouse W) :
    Prop where
  length : ∀ t, (world.historyAt t).length = (world.silver.tables t).length
  behind : world.toLakehouse.BehindSilver
  exist : ∀ p ∈ world.publications, ∀ t, p.release.silverVersions t < (world.silver.tables t).length
  reflects : ∀ p ∈ world.publications, world.Reflects fns hash p

/-- Silver as of versions that exist stays what it was. -/
theorem asOf_step {action : LakehouseAction W} (h : world.Faithful fns hash)
    (hstep : world.step fns hash action = some world') {versions : SilverTable → ℕ}
    (hversions : ∀ t, versions t < (world.silver.tables t).length) :
    world'.asOf versions = world.asOf versions := by
  rw [step] at hstep
  split at hstep
  case isFalse => cases hstep
  obtain ⟨after, hafter, rfl⟩ := Option.map_eq_some_iff.1 hstep
  obtain ⟨hextends, -⟩ := Lakehouse.step_spec hafter
  have htables : ∀ t, (after.silver.tables t).take (versions t + 1) =
      (world.silver.tables t).take (versions t + 1) := by
    intro t
    obtain ⟨more, hmore⟩ := hextends t
    rw [← hmore, List.take_append_of_le_length (hversions t)]
  have hhistories : ∀ t log, (world.historyAt t ++ log)[versions t]?.getD [] =
      (world.historyAt t)[versions t]?.getD [] := by
    intro t log
    rw [List.getElem?_append_left ((h.length t).symm ▸ hversions t)]
  rw [asOf, asOf]
  congr 1
  · exact funext htables
  · exact funext fun t ↦ hhistories t _

/-- The publication of a Gold stage, if Silver is as recorded. -/
theorem publicationsOf_spec (hbehind : world.toLakehouse.BehindSilver)
    {action : LakehouseAction W} (hok : world.SilverAsRecorded hash action) {p : Publication}
    (hp : p ∈ world.publicationsOf fns hash action) {after : Lakehouse W}
    (hafter : world.toLakehouse.step fns hash action = some after) :
    after.gold.activeRelease = some p.release ∧ after.silver = world.silver ∧
      world.Reflects fns hash p := by
  cases action with
  | goldStage stage =>
    obtain ⟨run, hrun, hpublication⟩ := Option.bind_eq_some_iff.1 (Option.mem_toList.1 hp)
    obtain ⟨run', hrun', rfl⟩ := Option.map_eq_some_iff.1 hafter
    obtain rfl := Option.some.inj (hrun.symm.trans hrun')
    obtain ⟨hlake, -, -⟩ := Lakehouse.goldRun_spec hbehind hrun
    obtain ⟨hprun, hbefore, hpublishes, hactive, hversions, hbuilt⟩ :=
      publicationOf_spec hpublication
    refine ⟨hactive, rfl, ?_⟩
    show p.built = _
    rw [hbuilt, hprun, hbefore, hversions]
    refine (rebuiltRows_on (hlake ▸ hok run hrun) (fun t ↦ hlake ▸ rfl) ?_).symm
    intro previous hprevious hfull t
    obtain ⟨release, hrelease, hrefreshed, hprogress⟩ :=
      activeRelease_of_incremental hprevious hfull hpublishes
    obtain rfl := Option.some.inj (hactive.symm.trans hrelease)
    rw [← hversions, hrefreshed]
    exact hprogress t
  | commit | appendHistory | mergeTable | replaceTable | keepTable => cases hp

/-- **One action keeps the publications true to their versions**, unless it is a Gold stage that
finds Silver moved on. -/
theorem Faithful.step {action : LakehouseAction W} (h : world.Faithful fns hash)
    (hok : world.SilverAsRecorded hash action) (hstep : world.step fns hash action = some world') :
    world'.Faithful fns hash := by
  have hasOf : ∀ {versions}, (∀ t, versions t < (world.silver.tables t).length) →
      world'.asOf versions = world.asOf versions := asOf_step h hstep
  rw [RecordedLakehouse.step] at hstep
  split at hstep
  case isFalse => cases hstep
  rename_i hready
  obtain ⟨after, hafter, rfl⟩ := Option.map_eq_some_iff.1 hstep
  obtain ⟨hextends, -⟩ := Lakehouse.step_spec hafter
  have hbehind := h.behind.step hafter
  -- what this step publishes: its versions exist and it was built from them
  have hnew : ∀ p ∈ world.publicationsOf fns hash action,
      (∀ t, p.release.silverVersions t < (world.silver.tables t).length) ∧
        world.Reflects fns hash p := by
    intro p hp
    obtain ⟨hactive, hsilver, hreflects⟩ := publicationsOf_spec h.behind hok hp hafter
    refine ⟨fun t ↦ ?_, hreflects⟩
    have hne : world.silver.tables t ≠ [] := by
      cases action with
      | goldStage stage =>
        have hall := List.all_eq_true.1 hready t (mem_silverTables t)
        exact fun hnil ↦ by simp [hnil] at hall
      | commit | appendHistory | mergeTable | replaceTable | keepTable => cases hp
    have hle := (hbehind.release p.release hactive t).trans (TableLog.lastVersionWhere_le _ _)
    rw [hsilver] at hle
    have hpos := List.length_pos_of_ne_nil hne
    omega
  have hall : ∀ p ∈ world.publications ++ world.publicationsOf fns hash action,
      (∀ t, p.release.silverVersions t < (world.silver.tables t).length) ∧
        world.Reflects fns hash p := by
    intro p hp
    rcases List.mem_append.1 hp with hold | hp
    · exact ⟨h.exist p hold, h.reflects p hold⟩
    · exact hnew p hp
  constructor
  case length =>
    intro t
    have hle := (hextends t).length_le
    show (world.historyAt t ++ List.replicate _ _).length = (after.silver.tables t).length
    rw [List.length_append, List.length_replicate, h.length]
    omega
  case behind => exact hbehind
  case exist => exact fun p hp t ↦ ((hall p hp).1 t).trans_le (hextends t).length_le
  case reflects =>
    intro p hp
    obtain ⟨hexist, hreflects⟩ := hall p hp
    rw [Reflects, hasOf hexist]
    exact hreflects

/-- **In every run in which each Gold stage finds what it reads of Silver as recorded, every
publication so far reflects the versions it records.** -/
theorem reflects_of_silverAsRecorded {actions : List (LakehouseAction W)}
    (hok : Runs.Along (fun w a ↦ RecordedLakehouse.step fns hash w a) (SilverAsRecorded hash)
      empty actions)
    (hrun : Runs.run (fun w a ↦ RecordedLakehouse.step fns hash w a) empty actions = some world) :
    ∀ p ∈ world.publications, world.Reflects fns hash p := by
  have hempty : (empty : RecordedLakehouse W).Faithful fns hash :=
    ⟨fun _ ↦ rfl, Lakehouse.behindSilver_empty, fun _ hp ↦ absurd hp List.not_mem_nil,
      fun _ hp ↦ absurd hp List.not_mem_nil⟩
  exact (Runs.run_invariant (Faithful fns hash) (fun _ _ _ h hok hstep ↦ h.step hok hstep) hempty
    hok hrun).reflects

end RecordedLakehouse

end Reflect

/-! ### A shop renamed between the two locks -/

/-- A batch run merges the name 'b' of a shop, with the event at 50 in its history. -/
def renameActions : List (LakehouseAction Bool) :=
  firstActions ++ [.appendHistory .shops [smallHistory 't' 7 (smallShop 'b') 50],
    .mergeTable false .shops (renamedShop 'a' 'b' .bronzeToSilver)] ++
  (silverTables.filter fun t ↦ t ≠ .shops).map (.keepTable false)

/-- CDC merges the name 'c'. -/
def cdcRename : List (LakehouseAction Bool) :=
  [.appendHistory .shops [smallHistory 'w' 7 (smallShop 'c') 60],
    .commit .shops (renamedShop 'b' 'c' .cdcToSilver)]

/-- The name 'c' is published with the version of the name 'b'. -/
theorem publication_mixes_versions : ¬∀ (actions : List (LakehouseAction Bool)) world,
    Runs.run (fun w a ↦ RecordedLakehouse.step .plain smallHash w a)
      RecordedLakehouse.empty actions = some world →
    ∀ p ∈ world.publications, world.Reflects .plain smallHash p := by
  intro h
  have hmixed : (Runs.run (fun w a ↦ RecordedLakehouse.step .plain smallHash w a)
      RecordedLakehouse.empty
      (renameActions ++ cdcRename ++ [.goldStage (smallStage (some false))])).any (fun world ↦
    world.publications.any fun p ↦ (p.built .dimShop).length ≠
      (rebuiltRows .plain smallHash (p.run.on (world.asOf p.release.silverVersions)
        p.release.silverVersions) p.before .dimShop).length) = true := by
    decide +kernel
  obtain ⟨world, hrun, hany⟩ := (Option.any_eq_true _ _).1 hmixed
  obtain ⟨p, hp, hlength⟩ := List.any_eq_true.1 hany
  refine of_decide_eq_true hlength ?_
  rw [← show p.built = _ from h _ world hrun p hp]

/-- Without the CDC merge in between, and with it before a run that reads the versions itself. -/
theorem reflects_of_silverAsRecorded_rename :
    ∃ world, Runs.run (fun w a ↦ RecordedLakehouse.step .plain smallHash w a)
      RecordedLakehouse.empty
      (renameActions ++ [.goldStage (smallStage (some false))] ++ cdcRename ++
        [.goldStage (smallStage none)]) = some world ∧
    ∀ p ∈ world.publications, world.Reflects .plain smallHash p := by
  have hsome : (Runs.run (fun w a ↦ RecordedLakehouse.step .plain smallHash w a)
      (RecordedLakehouse.empty (W := Bool)) (renameActions ++
        [.goldStage (smallStage (some false))] ++ cdcRename ++
          [.goldStage (smallStage none)])).isSome := by
    decide +kernel
  obtain ⟨world, hrun⟩ := Option.isSome_iff_exists.1 hsome
  exact ⟨world, hrun, RecordedLakehouse.reflects_of_silverAsRecorded (by decide +kernel) hrun⟩

end LakehousePipeline
