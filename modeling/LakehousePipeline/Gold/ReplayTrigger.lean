import LakehousePipeline.Gold.EchoedEvents
import LakehousePipeline.Gold.Progress
import LakehousePipeline.Gold.ReleaseContent

/-!
# What triggers a replay

A Silver step appends its events to the change history of their table and merges them into the
current rows. The versions of `dim_customer` and `dim_shop` come from the histories, but an
incremental run decides from the change data feed of the current rows whether and what it replays:
the shops with an image in the feed, and the customers with history since the checkpoint if the feed
of `app_users` has anything but metadata changes.

The two differ for an event that comes behind the row its key holds, and for events that cancel out:
the history has them, the feed has not. Then the dimension misses a version
(`not_showsHistories_late`). In every sequence of Silver steps and successful runs in which each new
event is either an echo or triggers the replay of its entity (`TriggersReplay`), the dimensions show
the whole histories after every run (`showsHistories_of_run`).

## What is followed

A round is a list of Silver steps and the incremental run after them, and only runs that succeed
count. After each of them the dimensions show the complete histories (`ShowsHistories`), and the
customers are those of the history up to the checkpoint (`CustomersUpTo`), from which the next
customer job goes on. Both are fields of `ReplayInvariant`.

Between two runs the histories grow at their ends (`prefix_histories_mergeStep`), so a later history
is the earlier one and the new rows. The entities of the new rows fall into two classes:

* those the run replays, from their whole history, so that nothing of them is missing;
* those it does not, whose new events must be echoes, events that change no row of the dimension
  (`perm_buildDimShop_of_echoes`, `perm_buildDimCustomer_of_echoes`).

For shops the first class is decided one by one, by the keys of the images in the feed. For
customers it is all or nothing: if the feed of `app_users` has more than metadata changes, every
customer with history since the checkpoint is replayed, and otherwise none, while the checkpoint
stays. `TriggersReplay` says for both that an entity with a new event that is no echo is in the
first class.
-/

namespace LakehousePipeline

open TableLog

/-! ### Silver steps and Gold runs -/

/-- The events of a table that are written to Silver at once. -/
structure SilverStep where
  /-- The table. -/
  table : SilverTable
  /-- The events, and by what they are merged. -/
  piece : SilverPiece ℤ (SilverColumns table)

/-- A Silver step, `none` when its merge raises: the events are appended to the change history, if
the table has one, and merged into the current rows. -/
def SilverLake.mergeStep (fns : SparkFunctions)
    (clean : (t : SilverTable) → SilverColumns t → SilverColumns t)
    (lake : SilverLake) (step : SilverStep) : Option SilverLake :=
  let t := step.table
  let histories :=
    if t.hasChangeHistory then
      Function.update lake.histories t
        (lake.histories t ++ [changeHistory fns t.name (clean t) step.piece.events])
    else lake.histories
  (mergePiece fns (clean t) (lake.currentRows t) step.piece).map fun rows ↦
    { lake with histories := histories }.commit t
      { rows := rows
        feed := mergeFeed (lake.currentRows t) rows
        pipeline := some (if step.piece.isCdc then .cdcToSilver else .bronzeToSilver) }

/-- Silver steps and the Gold run after them. -/
structure GoldRound where
  /-- The Silver steps. -/
  steps : List SilverStep
  /-- The manifest the Gold run is handed, if any. -/
  silverManifest : Option (SilverTable → ℕ)

/-- The Gold run of a round: an incremental one that nothing kills. -/
def GoldRound.run (round : GoldRound) (lake : SilverLake) : GoldRun where
  lake := lake
  fullRebuild := false
  silverManifest := round.silverManifest
  interruption := none
  finished _ := false
  checkpointed := false

/-- Silver and Gold. -/
structure SilverAndGold where
  /-- The Silver tables and histories. -/
  silver : SilverLake
  /-- The Gold layer. -/
  gold : GoldState

/-- The run returns. -/
def GoldOutcome.succeeds : GoldOutcome → Bool
  | published _ _ | upToDate => true
  | rejected _ | failed => false

namespace SilverAndGold

variable (fns : SparkFunctions) (hash : BusinessHash)
  (clean : (t : SilverTable) → SilverColumns t → SilverColumns t) (world : SilverAndGold)

/-- Silver after the steps of a round. -/
def merged (round : GoldRound) : Option SilverLake :=
  round.steps.foldlM (SilverLake.mergeStep fns clean) world.silver

/-- A round whose Gold run succeeds. -/
def step (round : GoldRound) : Option SilverAndGold :=
  (world.merged fns clean round).bind fun lake ↦
    let result := runGold fns hash (round.run lake) world.gold
    if result.2.succeeds then some ⟨lake, result.1⟩ else none

/-- A full run, whatever was there before, has just been published. It has read the history of
`app_users`, so there is one. -/
def AfterFullRun : Prop :=
  world.silver.histories .appUsers ≠ [] ∧ ∃ prior run, run.lake = world.silver ∧
    (run.fullRebuild = true ∨ (runGolds fns hash .empty prior).activeRelease = none) ∧
    (runGold fns hash run (runGolds fns hash .empty prior)).2.publishes = true ∧
    world.gold = (runGold fns hash run (runGolds fns hash .empty prior)).1

/-- **The dimensions show the complete histories**, in the tables and in the release. -/
structure ShowsHistories : Prop where
  customer : List.Perm (α := CustomerRow) (world.gold.latest .dimCustomer)
    (buildDimCustomer fns true (world.silver.history .appUsers))
  shop : List.Perm (α := ShopRow) (world.gold.latest .dimShop)
    (buildDimShop fns true (world.silver.history .shops))
  customer_published : world.gold.published .dimCustomer = world.gold.latest .dimCustomer
  shop_published : world.gold.published .dimShop = world.gold.latest .dimShop

end SilverAndGold

/-- No two events have one history event id and no two versions one surrogate key. -/
structure DimensionHashesApart (fns : SparkFunctions) (lake : SilverLake) : Prop where
  userIds : IdsApart ((lake.history .appUsers).map (customerEvent fns))
  shopIds : IdsApart ((lake.history .shops).map (shopEvent fns))
  userKeys : ((buildDimCustomer fns true (lake.history .appUsers)).map fun v ↦ v.surrogateKey).Nodup
  shopKeys : ((buildDimShop fns true (lake.history .shops)).map fun v ↦ v.surrogateKey).Nodup

/-- The rows of a history that are new in a later Silver state. -/
def newHistory (t : SilverTable) (silver lake : SilverLake) :
    List (HistoryRow ℤ (SilverColumns t)) :=
  ((lake.histories t).drop (silver.histories t).length).flatten

/-- **Every new event triggers the replay of its entity**, or is an echo: a shop with another event
since the last run is in the feed of the run, and if a customer has one since the checkpoint, the
feed of `app_users` has more than metadata changes. -/
structure TriggersReplay (fns : SparkFunctions) (hash : BusinessHash) (world : SilverAndGold)
    (run : GoldRun) : Prop where
  customers : ∀ previous ∈ world.gold.activeRelease, ∀ processed ∈ world.gold.checkpoint,
    (changesSince hash run previous.silverVersions .appUsers).isSome = true ∨
      ∀ row ∈ run.lake.historySince .appUsers processed,
        IsEcho (eventsOfKey ((run.lake.history .appUsers).map (customerEvent fns)) row.key)
          (customerEvent fns row)
  shops : ∀ previous ∈ world.gold.activeRelease,
    ∀ row ∈ newHistory .shops world.silver run.lake,
      row.key ∈ changedKeys (changesSince hash run previous.silverVersions) .shops ∨
        IsEcho (eventsOfKey ((run.lake.history .shops).map (shopEvent fns)) row.key)
          (shopEvent fns row)

/-! ### Histories grow -/

namespace SilverLake

variable {fns : SparkFunctions} {clean : (t : SilverTable) → SilverColumns t → SilverColumns t}
  {lake lake' : SilverLake}

/-- A Silver step only appends to the change histories. -/
theorem prefix_histories_mergeStep {step : SilverStep}
    (h : lake.mergeStep fns clean step = some lake')
    (t : SilverTable) : lake.histories t <+: lake'.histories t := by
  obtain ⟨rows, -, rfl⟩ := Option.map_eq_some_iff.1 h
  show lake.histories t <+: (if step.table.hasChangeHistory then _ else lake.histories) t
  split
  · rcases eq_or_ne t step.table with rfl | hne
    · rw [Function.update_self]
      exact List.prefix_append _ _
    · rw [Function.update_of_ne hne]
  · exact List.prefix_refl _

/-- And so do several. -/
theorem prefix_histories_foldlM {steps : List SilverStep}
    (h : steps.foldlM (mergeStep fns clean) lake = some lake') (t : SilverTable) :
    lake.histories t <+: lake'.histories t := by
  induction steps generalizing lake with
  | nil => exact Option.some.inj h ▸ List.prefix_refl _
  | cons step steps ih =>
    rw [List.foldlM_cons] at h
    obtain ⟨middle, hstep, hrest⟩ := Option.bind_eq_some_iff.1 h
    exact (prefix_histories_mergeStep hstep t).trans (ih hrest)

/-- A later history has the new rows last. -/
theorem history_eq_append {t : SilverTable} (h : lake.histories t <+: lake'.histories t) :
    lake'.history t = lake.history t ++ newHistory t lake lake' := by
  obtain ⟨more, hmore⟩ := h
  rw [history, history, newHistory, ← hmore, List.drop_left, List.flatten_append]

/-- A history is what has been processed and what came since. -/
theorem history_eq_take (lake : SilverLake) (t : SilverTable) (processed : ℕ) : lake.history t =
    ((lake.histories t).take (processed + 1)).flatten ++ lake.historySince t processed := by
  rw [history, historySince, ← List.flatten_append, List.take_append_drop]

end SilverLake

/-! ### The jobs -/

section Jobs

variable {fns : SparkFunctions} {lake : SilverLake}

/-- A full build is the unknown member and the replay. -/
theorem buildDimCustomer_true (history : List (HistoryRow ℤ UserColumns)) :
    buildDimCustomer fns true history = unknownMember unknownCustomer ::
      replaySingleEntityScd2 fns (history.map (customerEvent fns)) := by
  rw [buildDimCustomer, withUnknown_true]

/-- The same for the shops. -/
theorem buildDimShop_true (history : List (HistoryRow ℤ ShopColumns)) :
    buildDimShop fns true history = unknownMember unknownShop ::
      replaySingleEntityScd2 fns (history.map (shopEvent fns)) := by
  rw [buildDimShop, withUnknown_true]

/-- A built dimension has a row, so a table that has its rows has a version. -/
theorem ne_nil_of_perm {t : GoldTable} {log : List (List (GoldRow t))} {rows : List (GoldRow t)}
    {row : GoldRow t} (h : (latestRows log).Perm (row :: rows)) : log ≠ [] := by
  rintro rfl
  exact absurd h.symm.eq_nil (List.cons_ne_nil _ _)

/-- **The shop job leaves the shops of the whole history**, if the shops that are not in the feed
have had only echoes. -/
theorem perm_of_shopJob {history₀ newRows : List (HistoryRow ℤ ShopColumns)}
    {changes : SilverChanges}
    {log log' : List (List (GoldRow .dimShop))}
    (hhistory : lake.history .shops = history₀ ++ newRows) (hhashes : DimensionHashesApart fns lake)
    (hkeys₀ : ((buildDimShop fns true history₀).map fun v ↦ v.surrogateKey).Nodup)
    (hexisting : List.Perm (α := ShopRow) (latestRows log) (buildDimShop fns true history₀))
    (hcover : ∀ row ∈ newRows, row.key ∈ changedKeys changes .shops ∨
      IsEcho (eventsOfKey ((lake.history .shops).map (shopEvent fns)) row.key) (shopEvent fns row))
    (hperform : (shopJob fns lake changes (latestRows log)).perform log = some log') :
    List.Perm (α := ShopRow) (latestRows log') (buildDimShop fns true (lake.history .shops)) := by
  have hkeys := hhashes.shopKeys
  rw [hhistory] at hcover
  rw [hhistory, buildDimShop_true] at hkeys
  rw [buildDimShop_true] at hkeys₀ hexisting
  obtain ⟨result, hresult, hrows⟩ := exists_upsert_rows (shopEvent fns) (fun _ ↦ rfl)
    (hhistory ▸ hhashes.shopIds) unknownShop hcover hexisting hkeys₀ hkeys
  have hreplayed : buildDimShop fns false (filterIds (fun row ↦ some row.key)
      (changedKeys changes .shops) (lake.history .shops)) =
      replaySingleEntityScd2 fns ((filterIds (fun row ↦ some row.key) (changedKeys changes .shops)
        (history₀ ++ newRows)).map (shopEvent fns)) := by
    rw [buildDimShop, withUnknown_false, hhistory]
  rw [← hreplayed] at hresult
  obtain ⟨log'', hlog'', hlatest⟩ :=
    TableJob.exists_perform_upsert (t := .dimShop) (ne_nil_of_perm hexisting) rfl hresult
  obtain rfl := Option.some.inj (hlog''.symm.trans hperform)
  rw [hhistory, buildDimShop_true]
  exact (List.Perm.of_eq hlatest).trans hrows

/-- `dim_shop` shows nothing of new rows that are echoes. -/
theorem perm_buildDimShop_of_echoes {history₀ newRows : List (HistoryRow ℤ ShopColumns)}
    (hhistory : lake.history .shops = history₀ ++ newRows) (hhashes : DimensionHashesApart fns lake)
    (hecho : ∀ row ∈ newRows, IsEcho
      (eventsOfKey ((lake.history .shops).map (shopEvent fns)) row.key) (shopEvent fns row)) :
    (buildDimShop fns true history₀).Perm (buildDimShop fns true (lake.history .shops)) := by
  have hids := hhashes.shopIds
  rw [hhistory] at hecho hids ⊢
  rw [buildDimShop_true, buildDimShop_true]
  exact (perm_replay_of_echoes (fun _ ↦ rfl) hids hecho).cons _

/-- Nor does `dim_customer`. -/
theorem perm_buildDimCustomer_of_echoes {history₀ newRows : List (HistoryRow ℤ UserColumns)}
    (hhistory : lake.history .appUsers = history₀ ++ newRows)
    (hhashes : DimensionHashesApart fns lake)
    (hecho : ∀ row ∈ newRows, IsEcho
      (eventsOfKey ((lake.history .appUsers).map (customerEvent fns)) row.key)
        (customerEvent fns row)) :
    (buildDimCustomer fns true history₀).Perm
      (buildDimCustomer fns true (lake.history .appUsers)) := by
  have hids := hhashes.userIds
  rw [hhistory] at hecho hids ⊢
  rw [buildDimCustomer_true, buildDimCustomer_true]
  exact (perm_replay_of_echoes (fun _ ↦ rfl) hids hecho).cons _

/-- **The replay of the customers with new rows leaves the customers of the whole history.** -/
theorem perm_of_customerReplay {history₀ newRows : List (HistoryRow ℤ UserColumns)}
    {log log' : List (List (GoldRow .dimCustomer))}
    (hhistory : lake.history .appUsers = history₀ ++ newRows)
    (hhashes : DimensionHashesApart fns lake)
    (hkeys₀ : ((buildDimCustomer fns true history₀).map fun v ↦ v.surrogateKey).Nodup)
    (hexisting : List.Perm (α := CustomerRow) (latestRows log) (buildDimCustomer fns true history₀))
    (hperform : (TableJob.upsert (t := .dimCustomer)
      (buildDimCustomer fns false (filterIds (fun row ↦ some row.key)
        (newRows.map fun row ↦ row.key) (lake.history .appUsers)))
      (scopeOptions (staleKeys (fun v ↦ v.sourceKey) (latestRows log)
        (buildDimCustomer fns false (filterIds (fun row ↦ some row.key)
          (newRows.map fun row ↦ row.key) (lake.history .appUsers)))
        (newRows.map fun row ↦ row.key)) true) rfl).perform log = some log') :
    List.Perm (α := CustomerRow) (latestRows log')
      (buildDimCustomer fns true (lake.history .appUsers)) := by
  have hkeys := hhashes.userKeys
  rw [hhistory, buildDimCustomer_true] at hkeys
  rw [buildDimCustomer_true] at hkeys₀ hexisting
  obtain ⟨result, hresult, hrows⟩ := exists_upsert_rows (customerEvent fns) (fun _ ↦ rfl)
    (hhistory ▸ hhashes.userIds) unknownCustomer
    (fun row hrow ↦ Or.inl (List.mem_map_of_mem (f := fun row ↦ row.key) hrow)) hexisting
      hkeys₀ hkeys
  have hreplayed : buildDimCustomer fns false (filterIds (fun row ↦ some row.key)
      (newRows.map fun row ↦ row.key) (lake.history .appUsers)) =
      replaySingleEntityScd2 fns ((filterIds (fun row ↦ some row.key)
        (newRows.map fun row ↦ row.key) (history₀ ++ newRows)).map (customerEvent fns)) := by
    rw [buildDimCustomer, withUnknown_false, hhistory]
  rw [← hreplayed] at hresult
  obtain ⟨log'', hlog'', hlatest⟩ :=
    TableJob.exists_perform_upsert (t := .dimCustomer) (ne_nil_of_perm hexisting) rfl hresult
  obtain rfl := Option.some.inj (hlog''.symm.trans hperform)
  rw [hhistory, buildDimCustomer_true]
  exact (List.Perm.of_eq hlatest).trans hrows

/-- A table shows the customers of the history up to the checkpoint. -/
structure CustomersUpTo (fns : SparkFunctions) (lake : SilverLake) (s : GoldState) (processed : ℕ) :
    Prop where
  checkpoint : s.checkpoint = some processed
  lt : processed < (lake.histories .appUsers).length
  rows : List.Perm (α := CustomerRow) (s.latest .dimCustomer)
    (buildDimCustomer fns true ((lake.histories .appUsers).take (processed + 1)).flatten)
  keys : ((buildDimCustomer fns true ((lake.histories .appUsers).take (processed + 1)).flatten).map
    fun v ↦ v.surrogateKey).Nodup

/-- A checkpoint at the latest version is one at the end of the history. -/
theorem flatten_take_eq_history {processed : ℕ} (h : lake.historyVersion .appUsers ≤ processed) :
    ((lake.histories .appUsers).take (processed + 1)).flatten = lake.history .appUsers := by
  have hlength : (lake.histories .appUsers).length - 1 ≤ processed := h
  rw [SilverLake.history, List.take_of_length_le (by omega)]

/-- A run has written nothing but what its jobs write. -/
structure RanJobs (fns : SparkFunctions) (run : GoldRun) (s s' : GoldState)
    (changes : SilverChanges) : Prop where
  perform_eq : ∀ t, t ≠ .factSales → (run.jobs fns s changes).perform s t = some (s'.tables t)
  published_eq : ∀ t, t ≠ .factSales → s'.published t =
    if (run.jobs fns s changes t).isSome then s'.latest t else s.published t
  checkpoint : s'.checkpoint = (run.dimensionState (run.jobs fns s changes) s).checkpoint

variable {run : GoldRun} {s s' : GoldState} {changes : SilverChanges}

/-- A dimension without a job stays. -/
theorem RanJobs.latest_eq (h : RanJobs fns run s s' changes) {t : GoldTable} (ht : t ≠ .factSales)
    (hjob : run.jobs fns s changes t = none) : s'.latest t = s.latest t := by
  have hperform := h.perform_eq t ht
  rw [GoldJobs.perform, hjob] at hperform
  rw [GoldState.latest, GoldState.latest, ← Option.some.inj hperform]

/-- **The customer job leaves the customers of the whole history**, and the checkpoint at its
end. -/
theorem customersUpTo_of_job {processed : ℕ} (h : CustomersUpTo fns run.lake s processed)
    (hhashes : DimensionHashesApart fns run.lake) (hran : RanJobs fns run s s' changes)
    (hchanged : (changes .appUsers).isSome = true) :
    ∃ processed', CustomersUpTo fns run.lake s' processed' ∧
      ((run.lake.histories .appUsers).take (processed' + 1)).flatten =
        run.lake.history .appUsers := by
  have hjob : run.jobs fns s changes .dimCustomer =
      some (customerJob fns run.lake (some processed) (s.latest .dimCustomer)) := by
    show (if (changes .appUsers).isSome then _ else none) = _
    rw [if_pos hchanged, h.checkpoint]
  -- what the job does to the table and to the checkpoint
  have hran' : ∀ job, run.jobs fns s changes .dimCustomer = some job →
      job.perform (s.tables .dimCustomer) = some (s'.tables .dimCustomer) ∧
        s'.checkpoint = if job.movesCheckpoint then some (run.lake.historyVersion .appUsers)
          else s.checkpoint := by
    intro job hjob
    have hperform := hran.perform_eq .dimCustomer (by decide)
    have hdone : ((run.jobs fns s changes).perform s .dimCustomer).isSome = true := by
      rw [hperform]
      rfl
    refine ⟨?_, hran.checkpoint.trans ?_⟩
    · rw [← hperform, GoldJobs.perform, hjob]
    · show (if true && true && _ && (run.jobs fns s changes .dimCustomer).any _ then _ else _) = _
      rw [hdone, hjob]
      rfl
  by_cases hle : run.lake.historyVersion .appUsers ≤ processed
  · -- there is nothing since the checkpoint
    obtain ⟨hperform, hcheckpoint⟩ := hran' .skip (hjob.trans (congrArg some (if_pos hle)))
    have htables : s'.latest .dimCustomer = s.latest .dimCustomer := by
      rw [GoldState.latest, GoldState.latest, ← Option.some.inj hperform]
    refine ⟨processed, ⟨hcheckpoint.trans h.checkpoint, h.lt, ?_, h.keys⟩,
      flatten_take_eq_history hle⟩
    rw [htables]
    exact h.rows
  · obtain ⟨hperform, hcheckpoint⟩ := hran' _ (hjob.trans (congrArg some (if_neg hle)))
    have hrows :=
      perm_of_customerReplay (run.lake.history_eq_take .appUsers processed) hhashes h.keys
      h.rows hperform
    have hlength : run.lake.historyVersion .appUsers < (run.lake.histories .appUsers).length :=
      Nat.sub_one_lt (Nat.ne_of_gt (Nat.zero_lt_of_lt h.lt))
    have hwhole := flatten_take_eq_history (le_refl (run.lake.historyVersion .appUsers))
    refine ⟨run.lake.historyVersion .appUsers, ⟨hcheckpoint, hlength, ?_, ?_⟩, hwhole⟩
    · rw [hwhole]
      exact hrows
    · rw [hwhole]
      exact hhashes.userKeys

end Jobs

/-! ### A run that succeeds -/

section Run

variable {fns : SparkFunctions} {hash : BusinessHash} {run : GoldRun} {s : GoldState}

/-- Where the feed has nothing new, nothing has changed. -/
theorem changesSince_eq_none {previous : SilverTable → ℕ} {t : SilverTable}
    (h : refreshedVersions run previous t ≤ previous t) :
      changesSince hash run previous t = none := by
  rw [changesSince_eq]
  show ((changeRange run previous t).map _).filter _ = none
  rw [changeRange, if_neg h.not_gt]
  rfl

/-- **A run that succeeds** has rebuilt everything, or done the jobs of its changes on top of the
release before. -/
theorem ran_of_succeeds (hpins : s.PinsExist) (h : (runGold fns hash run s).2.succeeds = true) :
    (∃ changed built, FullRelease fns run (runGold fns hash run s).1 changed built) ∨
      ∃ previous, s.activeRelease = some previous ∧
        RanJobs fns run s (runGold fns hash run s).1
          (changesSince hash run previous.silverVersions) := by
  rcases houtcome : (runGold fns hash run s).2 with ⟨changed, built⟩ | _ | _ | _
  · have hstep := runStep_runGold fns hash run s
    rw [houtcome] at hstep
    rcases hstep.release hpins with hfull | ⟨previous, hincremental⟩
    · exact Or.inl ⟨changed, built, hfull⟩
    · exact Or.inr ⟨previous, hincremental.active, hincremental.perform_eq,
        hincremental.published_eq, hincremental.checkpoint⟩
  · obtain ⟨heq, previous, hactive, hle⟩ := runGold_of_upToDate houtcome
    have hjobs : ∀ t, run.jobs fns s (changesSince hash run previous.silverVersions) t = none :=
      incrementalJobs_eq_none (fun t ↦ changesSince_eq_none (hle t)) _ _
    refine Or.inr ⟨previous, hactive, fun t _ ↦ ?_, fun t _ ↦ ?_, ?_⟩
    · rw [heq, GoldJobs.perform, hjobs]
    · rw [heq, hjobs]
      rfl
    · rw [heq]
      show _ = if true && true && _ && (run.jobs fns s _ .dimCustomer).any _ then _
        else s.checkpoint
      rw [hjobs, Option.any_none, Bool.and_false, if_neg Bool.false_ne_true]
  · rw [houtcome] at h
    cases h
  · rw [houtcome] at h
    cases h

end Run

/-! ### Rounds -/

namespace SilverAndGold

variable {fns : SparkFunctions} {hash : BusinessHash}
  {clean : (t : SilverTable) → SilverColumns t → SilverColumns t} {world world' : SilverAndGold}

/-- What holds after every run. -/
structure ReplayInvariant (fns : SparkFunctions) (world : SilverAndGold) : Prop where
  pins : world.gold.PinsExist
  hashes : DimensionHashesApart fns world.silver
  shows : world.ShowsHistories fns
  customers : ∃ processed, CustomersUpTo fns world.silver world.gold processed

/-- A full run shows the histories it has read. -/
theorem replayInvariant_of_fullRelease {run : GoldRun} {changed : GoldTable → Bool}
    {built : GoldSnapshot} (h : FullRelease fns run world.gold changed built)
    (hlake : run.lake = world.silver) (hpins : world.gold.PinsExist)
    (hhashes : DimensionHashesApart fns world.silver)
    (hhistory : world.silver.histories .appUsers ≠ []) : ReplayInvariant fns world := by
  have hcustomer : world.gold.latest .dimCustomer =
      buildDimCustomer fns true (world.silver.history .appUsers) := by
    rw [h.dimensions .dimCustomer (by decide), hlake]
    rfl
  have hshop : world.gold.latest .dimShop =
      buildDimShop fns true (world.silver.history .shops) := by
    rw [h.dimensions .dimShop (by decide), hlake]
    rfl
  have hwhole := flatten_take_eq_history (le_refl (world.silver.historyVersion .appUsers))
  refine ⟨hpins, hhashes, ⟨List.Perm.of_eq hcustomer, List.Perm.of_eq hshop, ?_, ?_⟩,
    world.silver.historyVersion .appUsers, ?_, ?_, ?_, ?_⟩
  · rw [h.published_eq]
  · rw [h.published_eq]
  · rw [h.checkpoint, hlake]
  · exact Nat.sub_one_lt (mt List.length_eq_zero_iff.1 hhistory)
  · rw [hwhole]
    exact List.Perm.of_eq hcustomer
  · rw [hwhole]
    exact hhashes.userKeys

/-- What is true of the customers up to the checkpoint stays true when the history grows. -/
theorem customersUpTo_of_prefix {lake lake' : SilverLake} {s : GoldState} {processed : ℕ}
    (h : CustomersUpTo fns lake s processed)
    (hgrows : lake.histories .appUsers <+: lake'.histories .appUsers) :
    CustomersUpTo fns lake' s processed := by
  obtain ⟨more, hmore⟩ := hgrows
  have htake : (lake'.histories .appUsers).take (processed + 1) =
      (lake.histories .appUsers).take (processed + 1) := by
    rw [← hmore, List.take_append_of_le_length h.lt]
  refine ⟨h.checkpoint, ?_, ?_, ?_⟩
  · rw [← hmore, List.length_append]
    exact h.lt.trans_le (Nat.le_add_right _ _)
  · rw [htake]
    exact h.rows
  · rw [htake]
    exact h.keys

section Round

variable {round : GoldRound} {lake : SilverLake} {previous : GoldRelease} {s' : GoldState}

/-- The shops after an incremental run. -/
theorem shop_of_ranJobs (h : ReplayInvariant fns world)
    (hgrows : world.silver.histories .shops <+: lake.histories .shops)
    (hhashes : DimensionHashesApart fns lake)
    (htriggers : TriggersReplay fns hash world (round.run lake))
    (hactive : world.gold.activeRelease = some previous)
    (hran : RanJobs fns (round.run lake) world.gold s'
      (changesSince hash (round.run lake) previous.silverVersions)) :
    List.Perm (α := ShopRow) (s'.latest .dimShop) (buildDimShop fns true (lake.history .shops)) ∧
      s'.published .dimShop = s'.latest .dimShop := by
  set changes := changesSince hash (round.run lake) previous.silverVersions with hchanges
  have hnew := SilverLake.history_eq_append hgrows
  have hcover := htriggers.shops previous hactive
  have hpublished := hran.published_eq .dimShop (by decide)
  rcases hshops : changes .shops with - | feed
  · have hjob : (round.run lake).jobs fns world.gold changes .dimShop = none := by
      show (if (changes .shops).isSome then _ else none) = none
      rw [hshops, Option.isSome_none, if_neg Bool.false_ne_true]
    have hlatest := hran.latest_eq (by decide) hjob
    rw [hjob, Option.isSome_none, if_neg Bool.false_ne_true] at hpublished
    refine ⟨?_, by rw [hpublished, hlatest, h.shows.shop_published]⟩
    rw [hlatest]
    refine h.shows.shop.trans ?_
    -- no shop is in the feed, so all new rows are echoes
    have hnone : changedKeys changes .shops = [] := by
      rw [changedKeys, changedIds, hshops]
      rfl
    refine perm_buildDimShop_of_echoes hnew hhashes fun row hrow ↦ ?_
    refine (hcover row hrow).resolve_left fun hin ↦ ?_
    rw [hnone] at hin
    exact absurd hin List.not_mem_nil
  · have hjob : (round.run lake).jobs fns world.gold changes .dimShop =
        some (shopJob fns lake changes (world.gold.latest .dimShop)) := by
      show (if (changes .shops).isSome then _ else none) = _
      rw [hshops, Option.isSome_some, if_pos rfl]
      rfl
    rw [hjob, Option.isSome_some, if_pos rfl] at hpublished
    have hperform := hran.perform_eq .dimShop (by decide)
    rw [GoldJobs.perform, hjob] at hperform
    exact ⟨perm_of_shopJob hnew hhashes h.hashes.shopKeys h.shows.shop hcover hperform,
      hpublished⟩

/-- The customers after an incremental run. -/
theorem customer_of_ranJobs (h : ReplayInvariant fns world) {processed : ℕ}
    (hcustomers : CustomersUpTo fns lake world.gold processed)
    (hhashes : DimensionHashesApart fns lake)
    (htriggers : TriggersReplay fns hash world (round.run lake))
    (hactive : world.gold.activeRelease = some previous)
    (hran : RanJobs fns (round.run lake) world.gold s'
      (changesSince hash (round.run lake) previous.silverVersions)) :
    List.Perm (α := CustomerRow) (s'.latest .dimCustomer)
        (buildDimCustomer fns true (lake.history .appUsers)) ∧
      s'.published .dimCustomer = s'.latest .dimCustomer ∧
        ∃ processed, CustomersUpTo fns lake s' processed := by
  set changes := changesSince hash (round.run lake) previous.silverVersions with hchanges
  have hpublished := hran.published_eq .dimCustomer (by decide)
  rcases husers : (changes .appUsers).isSome with - | -
  · have hjob : (round.run lake).jobs fns world.gold changes .dimCustomer = none := by
      show (if (changes .appUsers).isSome then _ else none) = none
      rw [husers, if_neg Bool.false_ne_true]
    have hlatest := hran.latest_eq (by decide) hjob
    have hcheckpoint : s'.checkpoint = world.gold.checkpoint := by
      rw [hran.checkpoint]
      show (if true && true && _ && ((round.run lake).jobs fns world.gold changes
        .dimCustomer).any _ then _ else world.gold.checkpoint) = _
      rw [hjob, Option.any_none, Bool.and_false, if_neg Bool.false_ne_true]
    rw [hjob, Option.isSome_none, if_neg Bool.false_ne_true] at hpublished
    refine ⟨?_, by rw [hpublished, hlatest, h.shows.customer_published], processed,
      hcheckpoint.trans hcustomers.checkpoint, hcustomers.lt, ?_, hcustomers.keys⟩
    · rw [hlatest]
      refine hcustomers.rows.trans ?_
      refine perm_buildDimCustomer_of_echoes (lake.history_eq_take .appUsers processed) hhashes ?_
      refine (htriggers.customers previous hactive processed
        hcustomers.checkpoint).resolve_left fun htrue ↦ ?_
      exact absurd (husers.symm.trans htrue) Bool.false_ne_true
    · rw [hlatest]
      exact hcustomers.rows
  · obtain ⟨processed', hafter, hwhole⟩ :=
      customersUpTo_of_job hcustomers hhashes hran husers
    have hjob : ((round.run lake).jobs fns world.gold changes .dimCustomer).isSome = true := by
      show (if (changes .appUsers).isSome then some _ else none).isSome = true
      rw [husers]
      rfl
    rw [hjob, if_pos rfl] at hpublished
    have hrows := hafter.rows
    rw [hwhole] at hrows
    exact ⟨hrows, hpublished, processed', hafter⟩

end Round

/-- **A round in which every new event triggers its replay leaves the dimensions of the whole
histories.** -/
theorem ReplayInvariant.step (h : ReplayInvariant fns world) {round : GoldRound}
    (hok : ∀ lake ∈ world.merged fns clean round, DimensionHashesApart fns lake ∧
      TriggersReplay fns hash world (round.run lake))
    (hstep : world.step fns hash clean round = some world') : ReplayInvariant fns world' := by
  obtain ⟨lake, hmerged, hrun⟩ := Option.bind_eq_some_iff.1 hstep
  obtain ⟨hsucceeds, hworld⟩ := Option.ite_none_right_eq_some.1 hrun
  obtain rfl := Option.some.inj hworld
  obtain ⟨hhashes, htriggers⟩ := hok lake hmerged
  have hgrows := SilverLake.prefix_histories_foldlM hmerged
  have hpins := (runStep_runGold fns hash (round.run lake) world.gold).pinsExist h.pins
  obtain ⟨processed, hcustomers⟩ := h.customers
  have hcustomers := customersUpTo_of_prefix hcustomers (hgrows .appUsers)
  rcases ran_of_succeeds h.pins hsucceeds with ⟨changed, built, hfull⟩ | ⟨previous, hactive, hran⟩
  · refine replayInvariant_of_fullRelease hfull rfl hpins hhashes fun hnil ↦ ?_
    exact absurd hcustomers.lt (by rw [hnil]; exact Nat.not_lt_zero _)
  · obtain ⟨hshop, hshopPublished⟩ :=
      shop_of_ranJobs h (hgrows .shops) hhashes htriggers hactive hran
    obtain ⟨hcustomer, hcustomerPublished, hupTo⟩ :=
      customer_of_ranJobs h hcustomers hhashes htriggers hactive hran
    exact ⟨hpins, hhashes, ⟨hcustomer, hshop, hcustomerPublished, hshopPublished⟩, hupTo⟩

/-- **The dimensions of customers and shops show the whole histories** after a full run and any
sequence of Silver steps and successful runs in which every new event triggers its replay. -/
theorem showsHistories_of_run {rounds : List GoldRound} (hstart : world.AfterFullRun fns hash)
    (hhashes : DimensionHashesApart fns world.silver)
    (hok : Runs.Along (SilverAndGold.step fns hash clean) (fun world round ↦
      ∀ lake ∈ world.merged fns clean round, DimensionHashesApart fns lake ∧
        TriggersReplay fns hash world (round.run lake)) world rounds)
    (hrun : Runs.run (SilverAndGold.step fns hash clean) world rounds = some world') :
    world'.ShowsHistories fns := by
  have hinv : ReplayInvariant fns world := by
    obtain ⟨hhistory, prior, run, hlake, hfull, hpublishes, hgold⟩ := hstart
    have hpins : (runGolds fns hash .empty prior).PinsExist :=
      pinsExist_runGolds GoldState.pinsExist_empty prior
    have hstep := runStep_runGold fns hash run (runGolds fns hash .empty prior)
    have hnext := hstep.pinsExist hpins
    rw [← hgold] at hnext hstep
    generalize (runGold fns hash run (runGolds fns hash .empty prior)).2 =
      outcome at hstep hpublishes
    rcases outcome with ⟨changed, built⟩ | _ | _ | _
    · rcases hstep.release hpins with hrelease | ⟨previous, hincremental⟩
      · exact replayInvariant_of_fullRelease hrelease hlake hnext hhashes hhistory
      · rcases hfull with htrue | hnone
        · exact absurd htrue (by rw [hincremental.incremental]; exact Bool.false_ne_true)
        · exact absurd (hincremental.active.symm.trans hnone) (Option.some_ne_none _)
    · cases hpublishes
    · cases hpublishes
    · cases hpublishes
  exact (Runs.run_invariant (ReplayInvariant fns) (fun _ _ _ hinv hok hstep ↦ hinv.step hok hstep)
    hinv hok hrun).shows

end SilverAndGold

/-! ### A late event -/

/-- A Batch event that gives shop 7 a name at a time. -/
def shopNamed (id time : ℤ) (name : Char) : BronzeEvent ℤ ShopColumns where
  key := 7
  createdAt := 10
  payload := smallShop name
  operation := .update
  eventOccurredAt := some time
  eventId := .number id
  batchId := []
  isStreamingCdc := false
  sourceLsn := none
  kafkaPartition := none
  kafkaOffset := none

/-- A Silver step with one event of shop 7. -/
def shopStep (event : BronzeEvent ℤ ShopColumns) : SilverStep :=
  ⟨.shops, .batch [event]⟩

/-- A small lake after a full run. -/
def smallWorld : SilverAndGold :=
  ⟨smallLake [] [] [] [],
    (runGold .plain smallHash (smallRun (smallLake [] [] [] []) true) .empty).1⟩

/-- The release of the small world has been made by a full run. -/
theorem afterFullRun_smallWorld : smallWorld.AfterFullRun .plain smallHash := by
  have hnone : runGolds .plain smallHash .empty [] = .empty := rfl
  refine ⟨List.cons_ne_nil _ _, [], smallRun (smallLake [] [] [] []) true, rfl, Or.inl rfl, ?_, ?_⟩
  · decide +kernel
  · rw [hnone, smallWorld]

/-- The columns of a table as they are. -/
def uncleaned (t : SilverTable) (columns : SilverColumns t) : SilverColumns t := columns

/-- The shop is renamed at 40, and then there is an event of 30, all before one run. -/
def promptRound : GoldRound :=
  ⟨[shopStep (shopNamed 1 40 'b'), shopStep (shopNamed 2 30 'c')], none⟩

/-- The same events, with a run in between. -/
def lateRounds : List GoldRound :=
  [⟨[shopStep (shopNamed 1 40 'b')], none⟩, ⟨[shopStep (shopNamed 2 30 'c')], none⟩]

/-- In one round, the feed has the shop, and with it all its history is replayed. -/
theorem showsHistories_of_run_prompt : ∃ world', Runs.run
    (SilverAndGold.step .plain smallHash uncleaned) smallWorld [promptRound] = some world' ∧
      world'.ShowsHistories .plain := by
  have hsome : (Runs.run (SilverAndGold.step .plain smallHash uncleaned) smallWorld
    [promptRound]).isSome = true := by decide +kernel
  obtain ⟨world', hrun⟩ := Option.isSome_iff_exists.1 hsome
  have hfirst : DimensionHashesApart .plain smallWorld.silver :=
    ⟨idsApart_of_nodup (by decide +kernel), idsApart_of_nodup (by decide +kernel),
      by decide +kernel, by decide +kernel⟩
  have hlake : ∀ lake ∈ smallWorld.merged .plain uncleaned promptRound,
      (((lake.history .appUsers).map (customerEvent .plain)).map
          fun e ↦ e.historyEventId).Nodup ∧
        (((lake.history .shops).map (shopEvent .plain)).map fun e ↦ e.historyEventId).Nodup ∧
        ((buildDimCustomer .plain true (lake.history .appUsers)).map
          fun v ↦ v.surrogateKey).Nodup ∧
        ((buildDimShop .plain true (lake.history .shops)).map fun v ↦ v.surrogateKey).Nodup ∧
        (∀ processed ∈ smallWorld.gold.checkpoint, lake.historySince .appUsers processed = []) ∧
        ∀ previous ∈ smallWorld.gold.activeRelease,
          ∀ row ∈ newHistory .shops smallWorld.silver lake, row.key ∈ changedKeys
            (changesSince smallHash (promptRound.run lake) previous.silverVersions) .shops := by
    decide +kernel
  refine ⟨world', hrun,
    SilverAndGold.showsHistories_of_run afterFullRun_smallWorld hfirst ?_ hrun⟩
  refine ⟨fun lake hmerged ↦ ?_, fun _ _ ↦ trivial⟩
  obtain ⟨huserIds, hshopIds, huserKeys, hshopKeys, hnone, hfeed⟩ := hlake lake hmerged
  refine ⟨⟨idsApart_of_nodup huserIds, idsApart_of_nodup hshopIds, huserKeys, hshopKeys⟩, ?_, ?_⟩
  · refine fun previous _ processed hprocessed ↦ Or.inr fun row hrow ↦ absurd hrow ?_
    rw [show ((promptRound.run lake).lake.historySince .appUsers processed) = [] from
      hnone processed hprocessed]
    exact List.not_mem_nil
  · exact fun previous hprevious row hrow ↦ Or.inl (hfeed previous hprevious row hrow)

/-- **A late event leaves no trace in the feed**: the second run has nothing to do, and the version
that began at 30 is missing. -/
theorem not_showsHistories_late : smallWorld.AfterFullRun .plain smallHash ∧
    ∃ world', Runs.run (SilverAndGold.step .plain smallHash uncleaned) smallWorld lateRounds =
      some world' ∧ ¬world'.ShowsHistories .plain := by
  have hsome : (Runs.run (SilverAndGold.step .plain smallHash uncleaned) smallWorld
    lateRounds).isSome = true := by decide +kernel
  obtain ⟨world', hrun⟩ := Option.isSome_iff_exists.1 hsome
  refine ⟨afterFullRun_smallWorld, world', hrun, fun hshows ↦ ?_⟩
  have hlengths : ∀ world' ∈ Runs.run (SilverAndGold.step .plain smallHash uncleaned) smallWorld
      lateRounds, (world'.gold.latest .dimShop).length = 3 ∧
        (buildDimShop .plain true (world'.silver.history .shops)).length = 4 := by
    decide +kernel
  obtain ⟨hthree, hfour⟩ := hlengths world' hrun
  have hlength := hshows.shop.length_eq
  rw [hfour] at hlength
  exact absurd (hthree.symm.trans hlength) (by decide)

end LakehousePipeline
