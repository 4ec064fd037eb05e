import LakehousePipeline.Gold.Progress
import LakehousePipeline.Ingestion.BatchBronze

/-!
# Batch runs

A batch run extracts change events to Bronze, has Silver read Bronze up to the versions it
extracted, table by table, and has Gold read Silver. It can be killed anywhere. What it has
committed stays, and each Silver table remembers how far it has read Bronze, so the next run that
gets to Silver reads the backlog (`Inv`).

A run of mode `all` or `workflow` that has extracted nothing does not get to Silver if Gold has the
latest Silver versions. That compares Gold with Silver only. Whoever ends through Gold has delivered
all rows up to its Bronze stage, and whoever ends by the shortcut has if Silver had no backlog
(`delivered_of_ends`); with a backlog it has not (`not_delivered_backlog`).

The actions are single commits, so a list of them is any interleaving of batch runs, CDC writers and
maintenance. `merged` and `reached` record what happened, and no action reads them.

## What Silver remembers

Each Batch commit of a Silver table records how far it has read Bronze (`processed`), and a run goes
on from the last such commit. That this is right is the field `processed` of `Inv`: up to the
recorded version every Bronze commit with rows has been merged (`ReadTo`). It survives whatever
others do, since Bronze and what has been merged of it only grow (`ReadTo.mono`), and a CDC commit
records nothing.

`Inv.commitBatch` is the one place where a record is added, and `read_of_tableRun` says for each
branch of `run_table` that what it skips has been read before: the increment goes on from the
record, the snapshot and the replacement read everything. A killed run may have appended to the
history and not merged; it has recorded nothing then, and the next one reads the same commits again.

## How a run ends

The versions a run reports link its three stages: Silver reads up to what Bronze has reported, and
Gold starts from what Silver has. The last two fields of `Inv` carry these links across the actions
of other writers, and `Delivered` compares both ends of the chain.
-/

namespace LakehousePipeline

/-! ### The tables and the actions -/

/-- Bronze, Silver and Gold. `W` names the batch runs. -/
structure BatchLake (W : Type) where
  /-- The Batch Bronze tables. -/
  bronze : (t : SilverTable) → List (BronzeCommit ℤ (SilverColumns t))
  /-- Silver, Gold and the manifests of the Silver stages. -/
  lakehouse : Lakehouse W
  /-- `last_processed_bronze_version` in the metadata of each Batch version of a Silver table. -/
  processed : SilverTable → ℕ → ℕ
  /-- The `txnVersion` of the last Batch append to each change history. -/
  historyTxn : SilverTable → Option ℕ
  /-- The manifest of the Bronze stage of each batch run. -/
  results : W → Option (SilverTable → BronzeTableResult)
  /-- The Bronze versions whose rows have been merged into Silver. -/
  merged : SilverTable → List ℕ
  /-- The number of Bronze commits after the Bronze stage of each batch run. -/
  reached : W → SilverTable → ℕ

/-- The branch `run_table` of the Silver builder takes. -/
inductive TableRun
  /-- `_replace_from_snapshot`. -/
  | replace
  /-- `_merge_snapshot_into_unified`. -/
  | mergeSnapshot
  /-- Silver has read Bronze up to the version already. -/
  | keep
  /-- The changes from a version on are merged. -/
  | mergeChanges (start : ℕ)
  deriving DecidableEq, Repr

/-- What happens to the tables. -/
inductive BatchAction (W : Type)
  /-- A Bronze stage, with what the source query returns for each table. -/
  | extract (writer : W) (found : (t : SilverTable) → List (BronzeEvent ℤ (SilverColumns t)))
  /-- A Bronze stage that is killed when it has appended to some of the tables. -/
  | extractKilled (found : (t : SilverTable) → List (BronzeEvent ℤ (SilverColumns t)))
    (done : SilverTable → Bool)
  /-- Maintenance of a Bronze table. -/
  | optimizeBronze (t : SilverTable)
  /-- `run_table` of a Silver stage, which may be killed between the two tables it writes. -/
  | runTable (writer : W) (t : SilverTable) (fullRebuild killed : Bool)
  /-- A Silver commit that is not of a batch run. -/
  | otherCommit (t : SilverTable) (c : SilverCommit (SilverColumns t))
  /-- An append to a change history that is not of a batch run. -/
  | otherHistory (t : SilverTable) (rows : List (HistoryRow ℤ (SilverColumns t)))
  /-- A batch run ends after its Bronze stage: `no changes; skipped=silver,gold`. -/
  | skip (writer : W)
  /-- A Gold stage. -/
  | goldStage (stage : GoldStage W)

/-- The commit is of a Batch run. -/
def SilverCommit.isBatch {P : Type} (c : SilverCommit P) : Bool :=
  c.pipeline = some .bronzeToSilver

namespace BatchLake

variable {W : Type} [DecidableEq W]

/-- No table has been written. -/
def empty : BatchLake W where
  bronze _ := []
  lakehouse := .empty
  processed _ _ := 0
  historyTxn _ := none
  results _ := none
  merged _ := []
  reached _ _ := 0

variable (world : BatchLake W) (fns : SparkFunctions) (hash : BusinessHash) (clean : Cleaning)

/-- An action in Silver and Gold. -/
def inLakehouse (action : LakehouseAction W) : Option (BatchLake W) :=
  (world.lakehouse.step fns hash action).map fun lakehouse ↦ { world with lakehouse := lakehouse }

/-! ### The Bronze stage -/

/-- What the extraction of a table leaves and reports. -/
def extracted (found : (t : SilverTable) → List (BronzeEvent ℤ (SilverColumns t)))
    (t : SilverTable) : List (BronzeCommit ℤ (SilverColumns t)) × BronzeTableResult :=
  (extractTable (world.bronze t) (found t)).getD (world.bronze t, ⟨0, .incremental, 0⟩)

/-- `extract_all_to_bronze`, at the start of a run. -/
def extract (writer : W) (found : (t : SilverTable) → List (BronzeEvent ℤ (SilverColumns t))) :
    Option (BatchLake W) :=
  if (world.results writer).isNone && silverTables.all fun t ↦
      (world.lakehouse.manifests writer t).isNone &&
        (extractTable (world.bronze t) (found t)).isSome then
    some { world with
      bronze := fun t ↦ (world.extracted found t).1
      results := Function.update world.results writer (some fun t ↦ (world.extracted found t).2)
      reached := Function.update world.reached writer fun t ↦ (world.extracted found t).1.length }
  else none

/-- `_is_no_change_batch`. -/
def isNoChangeBatch (results : SilverTable → BronzeTableResult) : Bool :=
  silverTables.all fun t ↦
    (results t).ingestionType = .incremental && (results t).recordCount = 0

/-- `_downstream_is_current`. -/
def downstreamIsCurrent : Bool :=
  match world.lakehouse.gold.activeRelease with
  | none => false
  | some release => silverTables.all fun t ↦
    TableLog.recentVersionWhere (fun c : SilverCommit (SilverColumns t) ↦ c.pipeline.isSome)
      progressHistoryFallbackLimit (world.lakehouse.silver.tables t) =
        some (release.silverVersions t)

/-! ### The Silver stage -/

/-- `_bronze_version`: the manifest of the run, or the table. -/
def bronzeVersion (writer : W) (t : SilverTable) : Option ℕ :=
  match world.results writer with
  | some results => some (results t).deltaVersion
  | none => bronzeProgressVersion (world.bronze t)

/-- The branch for a Bronze version; Silver ahead of Bronze raises. -/
def tableRun (t : SilverTable) (fullRebuild : Bool) (current : ℕ) : Option TableRun :=
  let commits := world.lakehouse.silver.tables t
  if fullRebuild || commits.isEmpty then some .replace
  else
    match TableLog.recentVersionWhere SilverCommit.isBatch progressHistoryFallbackLimit commits with
    | none => some .mergeSnapshot
    | some version =>
      let previous := world.processed t version
      if current < previous then none
      else if previous = current then some .keep
      else some (.mergeChanges (previous + 1))

/-- The rows of the Bronze versions from `start` on, up to `stop` exclusively. -/
def bronzeRows (t : SilverTable) (start stop : ℕ) : List (BronzeEvent ℤ (SilverColumns t)) :=
  (((world.bronze t).take stop).drop start).flatMap fun c ↦ c.rows

/-- `append_change_history`: Delta skips an append whose `txnVersion` it has seen. -/
def appendHistory (t : SilverTable) (current : ℕ)
    (events : List (BronzeEvent ℤ (SilverColumns t))) : BatchLake W :=
  if t.hasChangeHistory && (world.historyTxn t).all fun seen ↦ seen < current then
    { world with
      lakehouse := world.lakehouse.writeHistory t
        (world.lakehouse.silver.histories t ++ [changeHistory fns t.name (clean t) events])
      historyTxn := Function.update world.historyTxn t (some current) }
  else world

/-- A Batch commit of a Silver table, which has read Bronze from `start` up to `stop`. -/
def commitBatch (t : SilverTable) (current start stop : ℕ) (action : LakehouseAction W) :
    Option (BatchLake W) :=
  (world.lakehouse.step fns hash action).map fun lakehouse ↦
    { world with
      lakehouse := lakehouse
      processed := Function.update world.processed t
        (Function.update (world.processed t) (world.lakehouse.silver.tables t).length current)
      merged := Function.update world.merged t
        (world.merged t ++ List.range' start (stop - start)) }

/-- The history is appended first, then the rows are merged. -/
def mergeRows (writer : W) (t : SilverTable) (current start stop : ℕ) (killed : Bool) :
    Option (BatchLake W) :=
  let events := world.bronzeRows t start stop
  let appended := world.appendHistory fns clean t current events
  if killed then some appended
  else
    let before := world.lakehouse.silver.currentRows t
    (mergePiece fns (clean t) before (.batch events)).bind fun rows ↦
      appended.commitBatch fns hash t current start stop
        (.mergeTable writer t ⟨rows, mergeFeed before rows, some .bronzeToSilver⟩)

/-- `_replace_from_snapshot`: the table is written first, then the history. -/
def replaceRows (writer : W) (t : SilverTable) (current : ℕ) (killed : Bool) :
    Option (BatchLake W) :=
  let stop := (world.bronze t).length
  let events := world.bronzeRows t 0 stop
  let rows := transformTable fns (clean t) events
  let c : SilverCommit (SilverColumns t) :=
    ⟨rows, overwriteFeed (world.lakehouse.silver.currentRows t) rows, some .bronzeToSilver⟩
  world.commitBatch fns hash t current 0 stop
    (if killed then .commit t c
    else if t.hasChangeHistory then
      .replaceTable writer t c (changeHistory fns t.name (clean t) events)
    else .mergeTable writer t c)

/-- `run_table`. -/
def runTable (writer : W) (t : SilverTable) (fullRebuild killed : Bool) : Option (BatchLake W) :=
  (world.bronzeVersion writer t).bind fun current ↦
    (world.tableRun t fullRebuild current).bind fun
      | .replace => world.replaceRows fns hash clean writer t current killed
      | .mergeSnapshot =>
        world.mergeRows fns hash clean writer t current 0 (world.bronze t).length killed
      | .keep =>
        if killed then some world else world.inLakehouse fns hash (.keepTable writer t)
      | .mergeChanges start =>
        world.mergeRows fns hash clean writer t current start (current + 1) killed

/-! ### The step function -/

/-- One action. -/
def step : BatchAction W → Option (BatchLake W)
  | .extract writer found => world.extract writer found
  | .extractKilled found done => some { world with
      bronze := fun t ↦ if done t then (world.extracted found t).1 else world.bronze t }
  | .optimizeBronze t =>
    if (world.bronze t).isEmpty then none
    else some { world with
      bronze := Function.update world.bronze t (world.bronze t ++ [⟨[], none⟩]) }
  | .runTable writer t fullRebuild killed =>
    world.runTable fns hash clean writer t fullRebuild killed
  | .otherCommit t c =>
    if c.isBatch then none else world.inLakehouse fns hash (.commit t c)
  | .otherHistory t rows => world.inLakehouse fns hash (.appendHistory t rows)
  | .skip writer =>
    if (world.results writer).any isNoChangeBatch && world.downstreamIsCurrent &&
        silverTables.all fun t ↦ (world.lakehouse.manifests writer t).isNone then some world
    else none
  | .goldStage stage => world.inLakehouse fns hash (.goldStage stage)

/-! ### What Silver remembers -/

variable {world fns hash clean} {world' : BatchLake W} {writer : W} {t : SilverTable}

/-- Such an action leaves Bronze and what is remembered. -/
theorem exists_of_inLakehouse {action : LakehouseAction W}
    (h : world.inLakehouse fns hash action = some world') :
    ∃ lakehouse, world.lakehouse.step fns hash action = some lakehouse ∧
      { world with lakehouse := lakehouse } = world' :=
  Option.map_eq_some_iff.1 h

/-- Silver has merged all rows of Bronze up to a version. -/
structure ReadTo (world : BatchLake W) (t : SilverTable) (version : ℕ) : Prop where
  lt : version < (world.bronze t).length
  merged : ∀ u ≤ version, HasRows (world.bronze t) u → u ∈ world.merged t

/-- Bronze and what has been merged of it only grow. -/
structure Grows (world world' : BatchLake W) : Prop where
  bronze : ∀ t, world.bronze t <+: world'.bronze t
  merged : ∀ t, world.merged t ⊆ world'.merged t

omit [DecidableEq W] in
/-- What Silver has read it has read for good. -/
theorem ReadTo.mono {version : ℕ} (h : world.ReadTo t version) (hgrows : world.Grows world') :
    world'.ReadTo t version where
  lt := h.lt.trans_le (hgrows.bronze t).length_le
  merged u hu hrows := hgrows.merged t
    (h.merged u hu (hrows.of_extends (hgrows.bronze t) (hu.trans_lt h.lt)))

/-- What the Bronze stage of a run has reported. -/
structure Reported (world : BatchLake W) (writer : W) (t : SilverTable) (version : ℕ) : Prop where
  lt : version < (world.bronze t).length
  reached : world.reached writer t ≤ (world.bronze t).length
  last : ∀ u < world.reached writer t, HasRows (world.bronze t) u → u ≤ version

omit [DecidableEq W] in
/-- What has been reported stays true. -/
theorem Reported.mono {version : ℕ} (h : world.Reported writer t version)
    (hgrows : world.Grows world') (hreached : world'.reached writer = world.reached writer) :
    world'.Reported writer t version where
  lt := h.lt.trans_le (hgrows.bronze t).length_le
  reached := hreached ▸ h.reached.trans (hgrows.bronze t).length_le
  last u hu hrows := by
    rw [hreached] at hu
    exact h.last u hu (hrows.of_extends (hgrows.bronze t) (hu.trans_le h.reached))

/-- **What holds in every reachable state.** -/
structure Inv (world : BatchLake W) : Prop where
  /-- No manifest and no release is ahead of Silver. -/
  behind : world.lakehouse.BehindSilver
  /-- Rows in Bronze come with a cursor. -/
  kept : ∀ t, CursorsKept (world.bronze t)
  /-- A Batch commit of Silver remembers a version Silver has read Bronze to. -/
  processed : ∀ t version c, (world.lakehouse.silver.tables t)[version]? = some c →
    c.isBatch = true → world.ReadTo t (world.processed t version)
  /-- A Bronze stage reports the last version with rows it has reached. -/
  results : ∀ writer results, world.results writer = some results →
    ∀ t, world.Reported writer t (results t).deltaVersion
  /-- A Silver stage has read what the Bronze stage of its run has reported. -/
  manifests : ∀ writer results, world.results writer = some results →
    ∀ t, world.lakehouse.manifests writer t ≠ none → world.ReadTo t (results t).deltaVersion

omit [DecidableEq W] in
/-- Nothing has been read and nothing is remembered. -/
theorem inv_empty : (empty : BatchLake W).Inv where
  behind := Lakehouse.behindSilver_empty
  kept _ := nofun
  processed _ _ _ h := by cases h
  results _ _ h := by cases h
  manifests _ _ h := by cases h

/-! ### The Bronze stage keeps it -/

omit [DecidableEq W] in
/-- What the extraction of a table leaves: the log goes on, and a report is of its last version with
rows. -/
theorem extracted_spec (h : world.Inv)
    (found : (t : SilverTable) → List (BronzeEvent ℤ (SilverColumns t))) (t : SilverTable) :
    world.bronze t <+: (world.extracted found t).1 ∧ CursorsKept (world.extracted found t).1 ∧
      ((extractTable (world.bronze t) (found t)).isSome = true →
        (world.extracted found t).2.deltaVersion < (world.extracted found t).1.length ∧
        ∀ u, HasRows (world.extracted found t).1 u →
          u ≤ (world.extracted found t).2.deltaVersion) := by
  rw [extracted]
  rcases hextract : extractTable (world.bronze t) (found t) with - | ⟨log, result⟩
  · exact ⟨List.prefix_refl _, h.kept t, fun hsome ↦ by cases hsome⟩
  · obtain ⟨hext, hkept, hlt, hlast⟩ := extractTable_spec (h.kept t) hextract
    exact ⟨hext, hkept, fun _ ↦ ⟨hlt, hlast⟩⟩

omit [DecidableEq W] in
/-- Bronze commits alone change nothing Silver remembers. -/
theorem Inv.of_bronze (h : world.Inv)
    {bronze : (t : SilverTable) → List (BronzeCommit ℤ (SilverColumns t))}
    (hext : ∀ t, world.bronze t <+: bronze t) (hkept : ∀ t, CursorsKept (bronze t)) :
    { world with bronze := bronze }.Inv := by
  have hgrows : world.Grows { world with bronze := bronze } := ⟨hext, fun _ ↦ List.Subset.refl _⟩
  exact
    { behind := h.behind
      kept := hkept
      processed := fun t version c hc hbatch ↦ (h.processed t version c hc hbatch).mono hgrows
      results := fun writer results hr t ↦ (h.results writer results hr t).mono hgrows rfl
      manifests := fun writer results hr t hm ↦ (h.manifests writer results hr t hm).mono hgrows }

/-- **The Bronze stage keeps the invariant.** -/
theorem Inv.extract (h : world.Inv)
    {found : (t : SilverTable) → List (BronzeEvent ℤ (SilverColumns t))}
    (hstep : world.extract writer found = some world') : world'.Inv := by
  obtain ⟨hguard, heq⟩ := Option.ite_none_right_eq_some.1 hstep
  obtain rfl := Option.some.inj heq
  obtain ⟨-, hall⟩ := Bool.and_eq_true_iff.1 hguard
  have htable : ∀ t, (world.lakehouse.manifests writer t).isNone = true ∧
      (extractTable (world.bronze t) (found t)).isSome = true := fun t ↦
    Bool.and_eq_true_iff.1 (List.all_eq_true.1 hall t (mem_silverTables t))
  have hspec := extracted_spec h found
  have hbronze := h.of_bronze (fun t ↦ (hspec t).1) fun t ↦ (hspec t).2.1
  refine ⟨hbronze.behind, hbronze.kept, fun t version c hc hb ↦ ?_, ?_, ?_⟩
  · exact ⟨(hbronze.processed t version c hc hb).lt, (hbronze.processed t version c hc hb).merged⟩
  · intro writer' results hr t
    have hr : Function.update world.results writer _ writer' = some results := hr
    rcases eq_or_ne writer' writer with rfl | hne
    · rw [Function.update_self] at hr
      obtain rfl := Option.some.inj hr
      obtain ⟨hlt, hlast⟩ := (hspec t).2.2 (htable t).2
      refine ⟨hlt, ?_, fun u _ hrows ↦ hlast u hrows⟩
      show Function.update world.reached writer' _ writer' t ≤ _
      rw [Function.update_self]
    · rw [Function.update_of_ne hne] at hr
      refine (h.results writer' results hr t).mono
        ⟨fun t ↦ (hspec t).1, fun _ ↦ List.Subset.refl _⟩ ?_
      show Function.update world.reached writer _ writer' = _
      rw [Function.update_of_ne hne]
  · intro writer' results hr t hm
    have hr : Function.update world.results writer _ writer' = some results := hr
    rcases eq_or_ne writer' writer with rfl | hne
    · -- the run has not been to Silver yet
      exact absurd (Option.isNone_iff_eq_none.1 (htable t).1) hm
    · rw [Function.update_of_ne hne] at hr
      exact (h.manifests writer' results hr t hm).mono
        ⟨fun t ↦ (hspec t).1, fun _ ↦ List.Subset.refl _⟩

/-! ### The Silver stage keeps it -/

omit [DecidableEq W] in
/-- Nothing Silver remembers changes when no Batch commit and no report is added. -/
theorem Inv.of_lakehouse (h : world.Inv) (lakehouse : Lakehouse W)
    (hbehind : lakehouse.BehindSilver)
    (hcommits : ∀ (t : SilverTable) (version : ℕ) (c : SilverCommit (SilverColumns t)),
      (lakehouse.silver.tables t)[version]? = some c → c.isBatch = true →
        (world.lakehouse.silver.tables t)[version]? = some c)
    (hmanifests : ∀ writer t, lakehouse.manifests writer t ≠ none →
      world.lakehouse.manifests writer t ≠ none) (historyTxn : SilverTable → Option ℕ) :
    { world with lakehouse := lakehouse, historyTxn := historyTxn }.Inv where
  behind := hbehind
  kept := h.kept
  processed t version c hc hb :=
    have hread := h.processed t version c (hcommits t version c hc hb) hb
    ⟨hread.lt, hread.merged⟩
  results writer results hr t :=
    have hreported := h.results writer results hr t
    ⟨hreported.lt, hreported.reached, hreported.last⟩
  manifests writer results hr t hm :=
    have hread := h.manifests writer results hr t (hmanifests writer t hm)
    ⟨hread.lt, hread.merged⟩

variable (fns clean) in
/-- An append to a change history records nothing. -/
theorem Inv.appendHistory (h : world.Inv) (t : SilverTable) (current : ℕ)
    (events : List (BronzeEvent ℤ (SilverColumns t))) :
    (world.appendHistory fns clean t current events).Inv := by
  rw [BatchLake.appendHistory]
  split
  · refine h.of_lakehouse (world.lakehouse.writeHistory t _) ?_ (fun _ _ _ hc _ ↦ hc)
      (fun _ _ hm ↦ hm) _
    exact h.behind.step (show world.lakehouse.step fns (fun _ _ _ ↦ [])
      (.appendHistory t (changeHistory fns t.name (clean t) events)) = some _ from rfl)
  · exact h

/-- A commit of a Silver table by a batch run, with or without a report. -/
def IsCommitOf (writer : W) (t : SilverTable) (c : SilverCommit (SilverColumns t))
    (action : LakehouseAction W) : Prop :=
  action = .commit t c ∨ action = .mergeTable writer t c ∨
    ∃ rows, action = .replaceTable writer t c rows

omit [DecidableEq W] in
/-- The commit of a replacement is one. -/
theorem isCommitOf_replacement (writer : W) (t : SilverTable) (c : SilverCommit (SilverColumns t))
    (rows : List (HistoryRow ℤ (SilverColumns t))) (killed : Bool) :
    IsCommitOf writer t c (if killed then .commit t c
      else if t.hasChangeHistory then .replaceTable writer t c rows
        else .mergeTable writer t c) := by
  split
  · exact Or.inl rfl
  · split
    · exact Or.inr (Or.inr ⟨rows, rfl⟩)
    · exact Or.inr (Or.inl rfl)

/-- What such a commit does to the tables and the manifests. -/
theorem tables_of_isCommitOf {lakehouse lakehouse' : Lakehouse W} {action : LakehouseAction W}
    {c : SilverCommit (SilverColumns t)} (haction : IsCommitOf writer t c action)
    (hstep : lakehouse.step fns hash action = some lakehouse') :
    lakehouse'.silver.tables =
        Function.update lakehouse.silver.tables t (lakehouse.silver.tables t ++ [c]) ∧
      ∀ writer' t', lakehouse'.manifests writer' t' ≠ none →
        writer' = writer ∧ t' = t ∨ lakehouse.manifests writer' t' ≠ none := by
  have hreport : ∀ (reporting : Lakehouse W) (version : ℕ),
      reporting.manifests = lakehouse.manifests → ∀ writer' t',
        (reporting.report writer t version).manifests writer' t' ≠ none →
          writer' = writer ∧ t' = t ∨ lakehouse.manifests writer' t' ≠ none := by
    intro reporting version hsame writer' t' hm
    obtain ⟨v, hv⟩ := Option.ne_none_iff_exists'.1 hm
    rcases Lakehouse.manifests_report _ _ _ _ hv with ⟨hwriter, htable, -⟩ | hold
    · exact Or.inl ⟨hwriter, htable⟩
    · rw [hsame] at hold
      exact Or.inr (by rw [hold]; exact Option.some_ne_none v)
  rcases haction with rfl | rfl | ⟨rows, rfl⟩
  · obtain rfl := Option.some.inj hstep
    exact ⟨rfl, fun _ _ hm ↦ Or.inr hm⟩
  · obtain ⟨-, hstep⟩ := Option.ite_none_right_eq_some.1 hstep
    obtain rfl := Option.some.inj hstep
    exact ⟨rfl, hreport _ _ rfl⟩
  · obtain ⟨-, hstep⟩ := Option.ite_none_right_eq_some.1 hstep
    obtain rfl := Option.some.inj hstep
    exact ⟨rfl, hreport _ _ rfl⟩

/-- **A Batch commit remembers what it has read**, if what it reads goes on from what has been read
up to the version it is given. -/
theorem Inv.commitBatch (h : world.Inv) {current start stop : ℕ} {action : LakehouseAction W}
    {c : SilverCommit (SilverColumns t)} (haction : IsCommitOf writer t c action)
    (hcurrent : world.bronzeVersion writer t = some current)
    (hlt : current < (world.bronze t).length) (hstop : current < stop)
    (hread : ∀ u < start, HasRows (world.bronze t) u → u ∈ world.merged t)
    (hstep : world.commitBatch fns hash t current start stop action = some world') :
    world'.Inv := by
  obtain ⟨lakehouse, hlakehouse, rfl⟩ := Option.map_eq_some_iff.1 hstep
  obtain ⟨htables, hmanifests⟩ := tables_of_isCommitOf haction hlakehouse
  set world' : BatchLake W := { world with
    lakehouse := lakehouse
    processed := Function.update world.processed t
      (Function.update (world.processed t) (world.lakehouse.silver.tables t).length current)
    merged := Function.update world.merged t
      (world.merged t ++ List.range' start (stop - start)) } with hworld'
  have hmerged : ∀ u, u ∈ world'.merged t ↔ u ∈ world.merged t ∨ start ≤ u ∧ u < stop := by
    intro u
    show u ∈ Function.update world.merged t _ t ↔ _
    rw [Function.update_self, List.mem_append, List.mem_range'_1]
    exact or_congr_right (and_congr_right fun hle ↦ by omega)
  have hgrows : world.Grows world' := by
    refine ⟨fun _ ↦ List.prefix_refl _, fun t' u hu ↦ ?_⟩
    rcases eq_or_ne t' t with rfl | hne
    · exact (hmerged u).2 (Or.inl hu)
    · show u ∈ Function.update world.merged t _ t'
      rw [Function.update_of_ne hne]
      exact hu
  -- what lies before the range was merged earlier, the range by this commit
  have hnew : world'.ReadTo t current := by
    refine ⟨hlt, fun u hu hrows ↦ (hmerged u).2 ?_⟩
    rcases Nat.lt_or_ge u start with hbefore | hfrom
    · exact Or.inl (hread u hbefore hrows)
    · exact Or.inr ⟨hfrom, by omega⟩
  refine ⟨h.behind.step hlakehouse, h.kept, ?_, ?_, ?_⟩
  · intro t' version c' hc hb
    have hc : (lakehouse.silver.tables t')[version]? = some c' := hc
    show world'.ReadTo t' (Function.update world.processed t _ t' version)
    rw [htables] at hc
    rcases eq_or_ne t' t with rfl | hne
    · rw [Function.update_self] at hc ⊢
      -- the commit of this run, or an older one whose progress is kept
      rcases eq_or_ne version (world.lakehouse.silver.tables t').length with rfl | hversion
      · rw [Function.update_self]
        exact hnew
      · have hlt := (List.getElem?_eq_some_iff.1 hc).1
        rw [List.length_append, List.length_singleton] at hlt
        rw [List.getElem?_append_left (by omega)] at hc
        rw [Function.update_of_ne hversion]
        exact (h.processed t' version c' hc hb).mono hgrows
    · rw [Function.update_of_ne hne] at hc ⊢
      exact (h.processed t' version c' hc hb).mono hgrows
  · exact fun writer' results hr t' ↦ (h.results writer' results hr t').mono hgrows rfl
  · intro writer' results hr t' hm
    -- the manifest of this writer, or one that the step has not touched
    rcases hmanifests writer' t' hm with ⟨rfl, rfl⟩ | hold
    · have hr : world.results writer' = some results := hr
      rw [bronzeVersion, hr] at hcurrent
      obtain rfl := Option.some.inj hcurrent
      exact hnew
    · exact (h.manifests writer' results hr t' hold).mono hgrows

omit [DecidableEq W] in
/-- What the branch of `run_table` presupposes has been read. -/
theorem read_of_tableRun (h : world.Inv) {fullRebuild : Bool} {current : ℕ} {run : TableRun}
    (hrun : world.tableRun t fullRebuild current = some run) :
    (run = .keep → world.ReadTo t current) ∧
      ∀ start, run = .mergeChanges start →
        ∀ u < start, HasRows (world.bronze t) u → u ∈ world.merged t := by
  rw [tableRun] at hrun
  dsimp only at hrun
  split at hrun
  · obtain rfl := Option.some.inj hrun
    exact ⟨nofun, nofun⟩
  · split at hrun
    · obtain rfl := Option.some.inj hrun
      exact ⟨nofun, nofun⟩
    · rename_i version hversion
      obtain ⟨-, c, hc, hbatch⟩ := TableLog.recentVersionWhere_spec hversion
      have hread := h.processed t version c hc hbatch
      split at hrun
      · cases hrun
      · split at hrun
        · rename_i heq
          obtain rfl := Option.some.inj hrun
          exact ⟨fun _ ↦ heq ▸ hread, nofun⟩
        · obtain rfl := Option.some.inj hrun
          refine ⟨nofun, fun start hstart u hu hrows ↦ ?_⟩
          obtain rfl := TableRun.mergeChanges.inj hstart
          exact hread.merged u (Nat.lt_succ_iff.1 hu) hrows

omit [DecidableEq W] in
/-- The version a run reads Bronze up to exists. -/
theorem bronzeVersion_lt (h : world.Inv) {current : ℕ}
    (hcurrent : world.bronzeVersion writer t = some current) :
      current < (world.bronze t).length := by
  rw [bronzeVersion] at hcurrent
  split at hcurrent
  · rename_i results hresults
    obtain rfl := Option.some.inj hcurrent
    exact (h.results writer results hresults t).lt
  · exact (bronzeProgressVersion_spec (h.kept t) hcurrent).1

omit [DecidableEq W] in
variable (world fns clean) in
/-- An append to the history leaves the rest. -/
theorem appendHistory_spec (t : SilverTable) (current : ℕ)
    (events : List (BronzeEvent ℤ (SilverColumns t))) :
    (world.appendHistory fns clean t current events).bronze = world.bronze ∧
      (world.appendHistory fns clean t current events).results = world.results ∧
      (world.appendHistory fns clean t current events).merged = world.merged := by
  rw [BatchLake.appendHistory]
  split
  · exact ⟨rfl, rfl, rfl⟩
  · exact ⟨rfl, rfl, rfl⟩

/-- A merge that goes on from what has been read keeps the invariant. -/
theorem Inv.mergeRows (h : world.Inv) {current start stop : ℕ} {killed : Bool}
    (hcurrent : world.bronzeVersion writer t = some current) (hstop : current < stop)
    (hread : ∀ u < start, HasRows (world.bronze t) u → u ∈ world.merged t)
    (hstep : world.mergeRows fns hash clean writer t current start stop killed = some world') :
    world'.Inv := by
  rw [BatchLake.mergeRows] at hstep
  dsimp only at hstep
  have happended := h.appendHistory fns clean t current (world.bronzeRows t start stop)
  obtain ⟨hbronze, hresults, hmerged⟩ :=
    appendHistory_spec world fns clean t current (world.bronzeRows t start stop)
  split at hstep
  · obtain rfl := Option.some.inj hstep
    exact happended
  · obtain ⟨rows, -, hcommit⟩ := Option.bind_eq_some_iff.1 hstep
    refine happended.commitBatch (Or.inr (Or.inl rfl)) ?_ ?_ hstop ?_ hcommit
    · rw [bronzeVersion, hresults, hbronze]
      exact hcurrent
    · rw [hbronze]
      exact bronzeVersion_lt h hcurrent
    · rw [hbronze, hmerged]
      exact hread

/-- A run that finds its version read reports the table. -/
theorem Inv.keepTable (h : world.Inv) {current : ℕ}
    (hcurrent : world.bronzeVersion writer t = some current) (hread : world.ReadTo t current)
    {lakehouse : Lakehouse W}
    (hstep : world.lakehouse.step fns hash (.keepTable writer t) = some lakehouse) :
    { world with lakehouse := lakehouse }.Inv := by
  have hbehind := h.behind.step hstep
  obtain rfl := Option.some.inj hstep
  refine ⟨hbehind, h.kept, fun t' version c hc hb ↦ ?_, fun writer' results hr t' ↦ ?_,
    fun writer' results hr t' hm ↦ ?_⟩
  · have hread := h.processed t' version c hc hb
    exact ⟨hread.lt, hread.merged⟩
  · have hreported := h.results writer' results hr t'
    exact ⟨hreported.lt, hreported.reached, hreported.last⟩
  · have hr : world.results writer' = some results := hr
    obtain ⟨v, hv⟩ := Option.ne_none_iff_exists'.1 hm
    rcases Lakehouse.manifests_report _ _ _ _ hv with ⟨rfl, rfl, -⟩ | hold
    · rw [bronzeVersion, hr] at hcurrent
      obtain rfl := Option.some.inj hcurrent
      exact ⟨hread.lt, hread.merged⟩
    · have hread := h.manifests writer' results hr t' (by rw [hold]; exact Option.some_ne_none v)
      exact ⟨hread.lt, hread.merged⟩

/-- **`run_table` keeps what Silver remembers right**, killed or not. -/
theorem Inv.runTable (h : world.Inv) {fullRebuild killed : Bool}
    (hstep : world.runTable fns hash clean writer t fullRebuild killed = some world') :
    world'.Inv := by
  obtain ⟨current, hcurrent, hstep⟩ := Option.bind_eq_some_iff.1 hstep
  obtain ⟨run, hrun, hstep⟩ := Option.bind_eq_some_iff.1 hstep
  have hlt := bronzeVersion_lt h hcurrent
  obtain ⟨hkeep, hchanges⟩ := read_of_tableRun h hrun
  have hzero : ∀ u < 0, HasRows (world.bronze t) u → u ∈ world.merged t :=
    fun u hu ↦ absurd hu (Nat.not_lt_zero u)
  cases run with
  | replace =>
    exact h.commitBatch (isCommitOf_replacement writer t _ _ killed) hcurrent hlt hlt hzero hstep
  | mergeSnapshot => exact h.mergeRows hcurrent hlt hzero hstep
  | mergeChanges start => exact h.mergeRows hcurrent (Nat.lt_succ_self _) (hchanges start rfl) hstep
  | keep =>
    rcases killed with - | -
    · obtain ⟨lakehouse, hlakehouse, rfl⟩ := exists_of_inLakehouse hstep
      exact h.keepTable hcurrent (hkeep rfl) hlakehouse
    · obtain rfl := Option.some.inj hstep
      exact h

/-! ### Every action keeps it -/

/-- A commit that is not of a batch run adds no Batch commit. -/
theorem Inv.otherCommit (h : world.Inv) {c : SilverCommit (SilverColumns t)}
    (hc : c.isBatch = false) {lakehouse : Lakehouse W}
    (hstep : world.lakehouse.step fns hash (.commit t c) = some lakehouse) :
    { world with lakehouse := lakehouse }.Inv := by
  have hbehind := h.behind.step hstep
  obtain rfl := Option.some.inj hstep
  refine h.of_lakehouse _ hbehind (fun t' version c' hc' hb ↦ ?_) (fun _ _ hm ↦ hm) _
  have hc' : (Function.update world.lakehouse.silver.tables t
    (world.lakehouse.silver.tables t ++ [c]) t')[version]? = some c' := hc'
  rcases eq_or_ne t' t with rfl | hne
  · rw [Function.update_self, List.getElem?_append] at hc'
    split at hc'
    · exact hc'
    · obtain rfl := List.mem_singleton.1 (List.mem_of_getElem? hc')
      rw [hc] at hb
      cases hb
  · rw [Function.update_of_ne hne] at hc'
    exact hc'

/-- **Every action keeps the invariant.** -/
theorem Inv.step (h : world.Inv) {action : BatchAction W}
    (hstep : world.step fns hash clean action = some world') : world'.Inv := by
  cases action with
  | extract writer found => exact h.extract hstep
  | extractKilled found done =>
    obtain rfl := Option.some.inj hstep
    refine h.of_bronze (fun t ↦ ?_) fun t ↦ ?_
    · split
      · exact (extracted_spec h found t).1
      · exact List.prefix_refl _
    · split
      · exact (extracted_spec h found t).2.1
      · exact h.kept t
  | optimizeBronze t =>
    obtain ⟨-, heq⟩ := Option.ite_none_left_eq_some.1 hstep
    obtain rfl := Option.some.inj heq
    refine h.of_bronze (fun t' ↦ ?_) fun t' ↦ ?_
    · rcases eq_or_ne t' t with rfl | hne
      · rw [Function.update_self]
        exact List.prefix_append _ _
      · rw [Function.update_of_ne hne]
    · -- OPTIMIZE appends a commit without rows, and so without progress
      rcases eq_or_ne t' t with rfl | hne
      · rw [Function.update_self]
        intro c hc hrows
        rcases List.mem_append.1 hc with hc | hc
        · exact h.kept t' c hc hrows
        · rw [List.mem_singleton.1 hc] at hrows
          exact absurd rfl hrows
      · rw [Function.update_of_ne hne]
        exact h.kept t'
  | runTable writer t fullRebuild killed => exact h.runTable hstep
  | otherCommit t c =>
    obtain ⟨hc, hstep⟩ := Option.ite_none_left_eq_some.1 hstep
    obtain ⟨lakehouse, hlakehouse, rfl⟩ := exists_of_inLakehouse hstep
    exact h.otherCommit (Bool.eq_false_iff.2 hc) hlakehouse
  | otherHistory t rows =>
    obtain ⟨lakehouse, hlakehouse, rfl⟩ := exists_of_inLakehouse hstep
    have hbehind := h.behind.step hlakehouse
    obtain rfl := Option.some.inj hlakehouse
    exact h.of_lakehouse _ hbehind (fun _ _ _ hc _ ↦ hc) (fun _ _ hm ↦ hm) _
  | skip writer =>
    obtain ⟨-, heq⟩ := Option.ite_none_right_eq_some.1 hstep
    obtain rfl := Option.some.inj heq
    exact h
  | goldStage stage =>
    obtain ⟨lakehouse, hlakehouse, rfl⟩ := exists_of_inLakehouse hstep
    have hbehind := h.behind.step hlakehouse
    obtain ⟨run, -, rfl⟩ := Option.map_eq_some_iff.1 hlakehouse
    exact h.of_lakehouse _ hbehind (fun _ _ _ hc _ ↦ hc) (fun _ _ hm ↦ hm) _

/-- **In every reachable state Silver remembers right how far it has read Bronze.** -/
theorem inv_of_run {actions : List (BatchAction W)} (h : world.Inv)
    (hrun : Runs.run (fun w a ↦ BatchLake.step w fns hash clean a) world actions = some world') :
    world'.Inv :=
  Runs.run_invariant_of_step Inv (fun _ _ _ hw hstep ↦ hw.step hstep) h hrun

/-! ### How a run ends -/

/-- A run of mode `all` or `workflow` ends with the action: by the shortcut, or with a Gold stage
that publishes or finds Gold up to date. -/
def Ends (world : BatchLake W) (fns : SparkFunctions) (hash : BusinessHash) (writer : W) :
    BatchAction W → Prop
  | .skip ending => ending = writer
  | .goldStage stage => stage.writer = some writer ∧ (world.results writer).isSome = true ∧
    ∃ run, world.lakehouse.goldRun stage = some run ∧
      ((runGold fns hash run world.lakehouse.gold).2.publishes = true ∨
        (runGold fns hash run world.lakehouse.gold).2 = .upToDate)
  | _ => False

/-- The version of a Silver table a run results in: the one its Silver stage reports, or the one it
finds. -/
def silverVersion (world : BatchLake W) (writer : W) (t : SilverTable) : ℕ :=
  (world.lakehouse.manifests writer t).getD (world.lakehouse.silver.version t)

/-- **The run strands nothing**: Silver has merged all rows in Bronze after the Bronze stage of the
run, and the active release has the resulting Silver versions. -/
structure Delivered (world : BatchLake W) (writer : W) : Prop where
  silver : ∀ t, ∀ u < world.reached writer t, HasRows (world.bronze t) u → u ∈ world.merged t
  gold : ∃ release, world.lakehouse.gold.activeRelease = some release ∧
    ∀ t, world.silverVersion writer t ≤ release.silverVersions t

/-- Some Batch commit of Silver has processed each Bronze version with rows that the run has
reached. -/
def NoBacklog (world : BatchLake W) (writer : W) : Prop :=
  ∀ t, ∀ u < world.reached writer t, HasRows (world.bronze t) u →
    ∃ version c, (world.lakehouse.silver.tables t)[version]? = some c ∧ c.isBatch = true ∧
      u ≤ world.processed t version

omit [DecidableEq W] in
/-- A release that is current has the latest data versions. -/
theorem release_of_downstreamIsCurrent (h : world.downstreamIsCurrent = true) :
    ∃ release, world.lakehouse.gold.activeRelease = some release ∧
      ∀ t, world.lakehouse.silver.version t = release.silverVersions t := by
  rw [downstreamIsCurrent] at h
  split at h
  · cases h
  · rename_i release hactive
    refine ⟨release, hactive, fun t ↦ ?_⟩
    have hversion := of_decide_eq_true (List.all_eq_true.1 h t (mem_silverTables t))
    exact (TableLog.recentVersionWhere_spec hversion).1.symm

/-- The shortcut strands nothing if there is no backlog. -/
theorem delivered_of_skip (h : world.Inv) (hbacklog : world.NoBacklog writer)
    (hstep : world.step fns hash clean (.skip writer) = some world') : world'.Delivered writer := by
  obtain ⟨hguard, heq⟩ := Option.ite_none_right_eq_some.1 hstep
  obtain rfl := Option.some.inj heq
  obtain ⟨hguard, hmanifests⟩ := Bool.and_eq_true_iff.1 hguard
  obtain ⟨-, hcurrent⟩ := Bool.and_eq_true_iff.1 hguard
  obtain ⟨release, hactive, hversions⟩ := release_of_downstreamIsCurrent hcurrent
  refine ⟨fun t u hu hrows ↦ ?_, release, hactive, fun t ↦ ?_⟩
  · obtain ⟨version, c, hc, hbatch, hle⟩ := hbacklog t u hu hrows
    exact (h.processed t version c hc hbatch).merged u hle hrows
  · have hnone := List.all_eq_true.1 hmanifests t (mem_silverTables t)
    rw [silverVersion, Option.isNone_iff_eq_none.1 hnone]
    exact (hversions t).le

omit [DecidableEq W] in
/-- A complete manifest has what each table reports. -/
theorem manifests_of_committedVersions {lakehouse : Lakehouse W} {versions : SilverTable → ℕ}
    (h : lakehouse.committedVersions writer = some versions) (t : SilverTable) :
    lakehouse.manifests writer t = some (versions t) := by
  obtain ⟨hall, heq⟩ := Option.ite_none_right_eq_some.1 h
  obtain ⟨v, hv⟩ := Option.isSome_iff_exists.1 (List.all_eq_true.1 hall t (mem_silverTables t))
  rw [← Option.some.inj heq]
  show _ = some ((lakehouse.manifests writer t).getD 0)
  rw [hv]
  rfl

omit [DecidableEq W] in
/-- A Gold stage that ends well leaves a release that has its manifest. -/
theorem release_of_goldStage {lakehouse : Lakehouse W} (hbehind : lakehouse.BehindSilver)
    {stage : GoldStage W} {run : GoldRun} (hrun : lakehouse.goldRun stage = some run)
    (hends : (runGold fns hash run lakehouse.gold).2.publishes = true ∨
      (runGold fns hash run lakehouse.gold).2 = .upToDate)
    {manifest : SilverTable → ℕ} (hm : run.silverManifest = some manifest) :
    ∃ release, (runGold fns hash run lakehouse.gold).1.activeRelease = some release ∧
      ∀ t, manifest t ≤ release.silverVersions t := by
  obtain ⟨-, -, hmanifest⟩ := Lakehouse.goldRun_spec hbehind hrun
  rcases hends with hpublishes | huptodate
  · obtain ⟨release, hactive, ⟨-, hversions⟩ | ⟨previous, -, -, hversions⟩⟩ :=
      activeRelease_of_publishes hpublishes
    · refine ⟨release, hactive, fun t ↦ ?_⟩
      rw [hversions, currentSilverVersions, hm, Option.getD_some]
    · refine ⟨release, hactive, fun t ↦ ?_⟩
      rw [hversions]
      exact le_refreshedVersions hmanifest hm t
  · obtain ⟨previous, hactive, hle⟩ := activeRelease_of_upToDate huptodate
    exact ⟨previous, hactive, fun t ↦ (le_refreshedVersions hmanifest hm t).trans (hle t)⟩

/-- A run that gets to Gold strands nothing. -/
theorem delivered_of_goldStage (h : world.Inv) {stage : GoldStage W}
    (hends : world.Ends fns hash writer (.goldStage stage))
    (hstep : world.step fns hash clean (.goldStage stage) = some world') :
    world'.Delivered writer := by
  obtain ⟨hwriter, hsome, run, hrun, hends⟩ := hends
  obtain ⟨results, hresults⟩ := Option.isSome_iff_exists.1 hsome
  obtain ⟨lakehouse, hlakehouse, rfl⟩ := exists_of_inLakehouse hstep
  obtain ⟨run', hrun', rfl⟩ := Option.map_eq_some_iff.1 hlakehouse
  obtain rfl := Option.some.inj (hrun.symm.trans hrun')
  -- the stage has a manifest, so each table has been reported
  have hversions : ∃ versions, world.lakehouse.committedVersions writer = some versions ∧
      run.silverManifest = some versions := by
    have hrun := hrun
    rw [Lakehouse.goldRun, hwriter] at hrun
    obtain ⟨versions, hversions, rfl⟩ := Option.map_eq_some_iff.1 hrun
    exact ⟨versions, hversions, rfl⟩
  obtain ⟨versions, hversions, hmanifest⟩ := hversions
  have hreports := manifests_of_committedVersions hversions
  obtain ⟨release, hactive, hle⟩ := release_of_goldStage h.behind hrun hends hmanifest
  refine ⟨fun t u hu hrows ↦ ?_, release, hactive, fun t ↦ ?_⟩
  · have hread := h.manifests writer results hresults t
      (by rw [hreports]; exact Option.some_ne_none _)
    exact hread.merged u ((h.results writer results hresults t).last u hu hrows) hrows
  · show (world.lakehouse.manifests writer t).getD _ ≤ _
    rw [hreports]
    exact hle t

/-- **A batch run that ends successfully strands no Bronze row**, in every state that any
interleaving of batch runs, killed or not, CDC writers and maintenance leads to, as long as it does
not take the shortcut in front of a backlog. -/
theorem delivered_of_ends {actions : List (BatchAction W)}
    (hrun : Runs.run (fun w a ↦ BatchLake.step w fns hash clean a) empty actions = some world)
    {action : BatchAction W} (hends : world.Ends fns hash writer action)
    (hbacklog : action = .skip writer → world.NoBacklog writer)
    (hstep : world.step fns hash clean action = some world') : world'.Delivered writer := by
  have hinv := inv_of_run inv_empty hrun
  cases action with
  | skip ending =>
    obtain rfl : ending = writer := hends
    exact delivered_of_skip hinv (hbacklog rfl) hstep
  | goldStage stage => exact delivered_of_goldStage hinv hends hstep
  | extract | extractKilled | optimizeBronze | runTable | otherCommit | otherHistory =>
    exact hends.elim

/-! ### A run that is killed after its Bronze stage -/

/-- The insert of a shop. -/
def insertedShop (eventId key : ℤ) (name : Char) : BronzeEvent ℤ ShopColumns where
  key := key
  createdAt := 10
  payload := smallShop name
  operation := .insert
  eventOccurredAt := some (10 + eventId)
  eventId := .number eventId
  batchId := ['b']
  isStreamingCdc := false
  sourceLsn := none
  kafkaPartition := none
  kafkaOffset := none

/-- The source query finds changes of shops only. -/
def foundShops (events : List (BronzeEvent ℤ ShopColumns)) :
    (t : SilverTable) → List (BronzeEvent ℤ (SilverColumns t))
  | .shops => events
  | _ => []

/-- A Silver stage that nothing kills. -/
def silverStage (writer : ℕ) : List (BatchAction ℕ) :=
  silverTables.map fun t ↦ .runTable writer t false false

/-- A Gold stage that nothing kills. -/
def lastStage (writer : ℕ) : GoldStage ℕ :=
  ⟨some writer, false, none, fun _ ↦ false, false⟩

/-- A first run that ends, and a second one that is killed after its Bronze stage. -/
def killedActions : List (BatchAction ℕ) :=
  .extract 0 (foundShops [insertedShop 1 7 'a']) :: silverStage 0 ++
    [.goldStage (lastStage 0), .extract 1 (foundShops [insertedShop 2 8 'b'])]

/-- What small runs lead to. -/
def smallBatches (actions : List (BatchAction ℕ)) : Option (BatchLake ℕ) :=
  Runs.run (fun w a ↦ BatchLake.step w .plain smallHash (fun _ ↦ id) a) empty actions

/-- A third run that finds another change delivers what the second left behind. -/
theorem delivered_of_ends_change : ∃ world world' : BatchLake ℕ,
    smallBatches (killedActions ++
      .extract 2 (foundShops [insertedShop 3 9 'c']) :: silverStage 2) = some world ∧
      world.step .plain smallHash (fun _ ↦ id) (.goldStage (lastStage 2)) = some world' ∧
      world'.Delivered 2 := by
  have hrun : ((smallBatches (killedActions ++
      .extract 2 (foundShops [insertedShop 3 9 'c']) :: silverStage 2)).any fun world ↦
    (world.results 2).isSome && (world.lakehouse.goldRun (lastStage 2)).any fun run ↦
      (runGold .plain smallHash run world.lakehouse.gold).2.publishes) = true := by
    decide +kernel
  obtain ⟨world, hworld, hends⟩ := (Option.any_eq_true _ _).1 hrun
  obtain ⟨hresults, hgold⟩ := Bool.and_eq_true_iff.1 hends
  obtain ⟨run, hgoldRun, hpublishes⟩ := (Option.any_eq_true _ _).1 hgold
  have hstep : ∃ world', world.step .plain smallHash (fun _ ↦ id)
      (.goldStage (lastStage 2)) = some world' := by
    exact ⟨_, Option.map_eq_some_iff.2 ⟨_, Option.map_eq_some_iff.2 ⟨run, hgoldRun, rfl⟩, rfl⟩⟩
  obtain ⟨world', hstep⟩ := hstep
  have hends : world.Ends .plain smallHash 2 (.goldStage (lastStage 2)) :=
    ⟨rfl, hresults, run, hgoldRun, Or.inl hpublishes⟩
  have hgoes : BatchAction.goldStage (lastStage 2) ≠ .skip 2 := nofun
  exact ⟨world, world', hworld, hstep,
    delivered_of_ends hworld hends (fun h ↦ absurd h hgoes) hstep⟩

/-- **A third run that finds nothing ends by the shortcut**, with the row of the second in Bronze
only. -/
theorem not_delivered_backlog : ∃ world world' : BatchLake ℕ,
    smallBatches (killedActions ++ [.extract 2 (foundShops [])]) = some world ∧
      world.Ends .plain smallHash 2 (.skip 2) ∧
      world.step .plain smallHash (fun _ ↦ id) (.skip 2) = some world' ∧
      ¬world'.Delivered 2 := by
  have hrun : ((smallBatches (killedActions ++ [.extract 2 (foundShops [])])).any fun world ↦
    (world.step .plain smallHash (fun _ ↦ id) (.skip 2)).any fun world' ↦
      decide (world'.merged .shops = [0] ∧ world'.reached 2 .shops = 2) &&
        ((world'.bronze .shops)[1]?).any fun c ↦ !c.rows.isEmpty) = true := by
    decide +kernel
  obtain ⟨world, hworld, hrun⟩ := (Option.any_eq_true _ _).1 hrun
  obtain ⟨world', hstep, hrun⟩ := (Option.any_eq_true _ _).1 hrun
  obtain ⟨hkept, hrows⟩ := Bool.and_eq_true_iff.1 hrun
  obtain ⟨hmerged, hreached⟩ := of_decide_eq_true hkept
  obtain ⟨c, hc, hrows⟩ := (Option.any_eq_true _ _).1 hrows
  refine ⟨world, world', hworld, rfl, hstep, fun hdelivered ↦ ?_⟩
  -- version 1 is the append of the killed run
  have hone := hdelivered.silver .shops 1 (by omega) ⟨c, hc, by simpa using hrows⟩
  rw [hmerged] at hone
  exact absurd hone (by decide)

end BatchLake

end LakehousePipeline
