import LakehousePipeline.Gold.Builder

/-!
# Releases over runs

What holds in every state the Gold layer can reach. The logs of the tables and the list of releases
only grow (`RunStep.extends`) and a release pins versions that exist (`pinsExist_runGolds`), so what
a release shows never changes once it is published.

A run that publishes is described once, by what its release shows table by table: a full run the
rows it built (`FullRelease`), an incremental run the tables after its jobs where it has a job, and
the versions of the previous release elsewhere (`IncrementalRelease`).

## One inversion for all runs

`RunStep` lists what a run can do, with the guards it has passed: publish nothing, whatever it has
written by then; publish a full build; publish after metadata changes only; publish an increment.
A run that is killed, that fails its gate or that finds Gold up to date is of the first kind. Every
invariant of runs is proved from these four cases, and `runStep_runGold` is the only place where the
steps of a run are taken apart.

## From one run to all

`AllRuns` says of each run of a list what it does in the state it starts from, and
`allRuns_of_step` carries a property over the list. The invariant that goes along is, nearly always,
that pins exist: it makes a release readable, and it needs nothing of the runs.
-/

namespace LakehousePipeline

open TableLog

/-! ### Logs only grow -/

/-- A job writes after the versions that are there. -/
theorem TableJob.prefix_perform {t : GoldTable} {job : TableJob t}
    {log log' : List (List (GoldRow t))} (h : job.perform log = some log') : log <+: log' := by
  cases job with
  | skip => exact Option.some.inj h ▸ List.prefix_refl _
  | append members =>
    obtain ⟨rows, -, rfl⟩ := Option.map_eq_some_iff.1 h
    exact prefix_commit _ _
  | upsert rows options _ =>
    obtain ⟨result, -, rfl⟩ := Option.map_eq_some_iff.1 h
    show log <+: if result.written then commit log result.rows else log
    split
    · exact prefix_commit _ _
    · exact List.prefix_refl _
  | overwrite rows => exact Option.some.inj h ▸ prefix_commit _ _
  | missingCheckpoint => cases h

/-- And so do the jobs of a run, of which a table has one at most. -/
theorem GoldJobs.prefix_perform {jobs : GoldJobs} {s : GoldState} {t : GoldTable}
    {log : List (List (GoldRow t))} (h : jobs.perform s t = some log) : s.tables t <+: log := by
  rw [GoldJobs.perform] at h
  split at h
  · exact TableJob.prefix_perform h
  · exact Option.some.inj h ▸ List.prefix_refl _

/-- **What a later state keeps**: the versions of the tables and the releases. -/
structure GoldState.Extends (s s' : GoldState) : Prop where
  tables : ∀ t, s.tables t <+: s'.tables t
  releases : s.releases <+: s'.releases

/-- A state keeps what it has. -/
theorem GoldState.Extends.refl (s : GoldState) : s.Extends s :=
  ⟨fun _ ↦ List.prefix_refl _, List.prefix_refl _⟩

theorem GoldState.Extends.trans {s s' s'' : GoldState} (h : s.Extends s') (h' : s'.Extends s'') :
    s.Extends s'' :=
  ⟨fun t ↦ (h.tables t).trans (h'.tables t), h.releases.trans h'.releases⟩

namespace GoldState

variable {s s' : GoldState}

/-- Dimension jobs only add versions, however many of them have ended. -/
theorem extends_afterJobs (s : GoldState) (lake : SilverLake) (jobs : GoldJobs)
    (finished : GoldTable → Bool) (checkpointed : Bool) :
    s.Extends (s.afterJobs lake jobs finished checkpointed) := by
  refine ⟨fun t ↦ ?_, List.prefix_refl _⟩
  show s.tables t <+: if finished t then (jobs.perform s t).getD (s.tables t) else s.tables t
  split
  · cases h : jobs.perform s t with
    | none => exact List.prefix_refl _
    | some log => exact GoldJobs.prefix_perform h
  · exact List.prefix_refl _

/-- So does a dimension step that breaks off. -/
theorem extends_afterDimensions (run : GoldRun) (jobs : GoldJobs) (s : GoldState) :
    s.Extends (run.afterDimensions jobs s) := by
  rw [GoldRun.afterDimensions]
  split <;> exact extends_afterJobs _ _ _ _ _

/-- Facts are written to their table only. -/
theorem withFacts_of_ne {t : GoldTable} (h : t ≠ .factSales)
    (log : List (List (GoldRow .factSales))) : (s.withFacts log).tables t = s.tables t :=
  Function.update_of_ne h _ _

@[simp] theorem withFacts_factSales (log : List (List (GoldRow .factSales))) :
    (s.withFacts log).tables .factSales = log := by
  show Function.update s.tables .factSales log .factSales = log
  rw [Function.update_self]

theorem extends_withFacts {log : List (List (GoldRow .factSales))}
    (h : s.tables .factSales <+: log) : s.Extends (s.withFacts log) := by
  refine ⟨fun t ↦ ?_, List.prefix_refl _⟩
  rcases eq_or_ne t .factSales with rfl | ht
  · rwa [withFacts_factSales]
  · rw [withFacts_of_ne ht]

/-- A merge of facts adds a version at most. -/
theorem extends_withMerged (s : GoldState) (result : UpsertResult FactRow) :
    s.Extends (s.withMerged result) := by
  rw [withMerged]
  split
  · exact extends_withFacts (prefix_commit _ _)
  · exact .refl s

/-- It publishes nothing. -/
theorem releases_withMerged (s : GoldState) (result : UpsertResult FactRow) :
    (s.withMerged result).releases = s.releases := by
  rw [withMerged]
  split <;> rfl

theorem withMerged_of_ne {t : GoldTable} (h : t ≠ .factSales) (s : GoldState)
    (result : UpsertResult FactRow) : (s.withMerged result).tables t = s.tables t := by
  rw [withMerged]
  split
  · exact withFacts_of_ne h _
  · rfl

/-- A publication adds a release, and the commit that stores it. -/
theorem extends_publish (s : GoldState) (silverVersions : SilverTable → ℕ)
    (changed : GoldTable → Bool) (previous : GoldTable → ℕ) :
    s.Extends (s.publish silverVersions changed previous) :=
  ⟨(extends_withFacts (prefix_commit _ _)).tables, List.prefix_append _ _⟩

/-! ### Pins -/

/-- **Every release pins versions that exist.** -/
def PinsExist (s : GoldState) : Prop :=
  ∀ release ∈ s.releases, ∀ t, release.goldVersions t < (s.tables t).length

/-- What a release shows does not change. -/
theorem view_of_extends (hpins : s.PinsExist) (h : s.Extends s') {release : GoldRelease}
    (hrelease : release ∈ s.releases) : s'.view release = s.view release :=
  funext fun t ↦ rowsAt_of_extends (h.tables t) (hpins release hrelease t)

/-- The active release is one of the releases. -/
theorem activeRelease_mem {release : GoldRelease} (h : s.activeRelease = some release) :
    release ∈ s.releases :=
  List.mem_of_getLast? h

theorem published_eq_view {release : GoldRelease} (h : s.activeRelease = some release) :
    s.published = s.view release := by
  funext t
  rw [published, h]
  rfl

/-- The release a publication adds. -/
theorem activeRelease_publish (s : GoldState) (silverVersions : SilverTable → ℕ)
    (changed : GoldTable → Bool) (previous : GoldTable → ℕ) :
    (s.publish silverVersions changed previous).activeRelease = some
      { silverVersions := silverVersions
        goldVersions := fun t ↦
          if t = .factSales then
            (if changed t then latestVersion (s.tables t) else previous t) + 1
          else if changed t then latestVersion (s.tables t) else previous t } :=
  List.getLast?_concat

/-- **A release shows the latest rows of a changed dimension**, and the pinned ones of another. -/
theorem published_publish_of_ne {t : GoldTable} (ht : t ≠ .factSales) (s : GoldState)
    (silverVersions : SilverTable → ℕ) (changed : GoldTable → Bool) (previous : GoldTable → ℕ) :
    (s.publish silverVersions changed previous).published t =
      if changed t then s.latest t else rowsAt (s.tables t) (previous t) := by
  rw [published_eq_view (activeRelease_publish s silverVersions changed previous)]
  show rowsAt ((s.withFacts _).tables t) (if t = .factSales then _ else _) = _
  rw [withFacts_of_ne ht, if_neg ht]
  split
  · exact rowsAt_latestVersion _
  · rfl

/-- **A release shows the latest facts where they changed**, and otherwise those of the version
after the pinned one, which is the commit of the release itself unless there was one before. -/
theorem published_publish_factSales (s : GoldState) (silverVersions : SilverTable → ℕ)
    (changed : GoldTable → Bool) (previous : GoldTable → ℕ) (hne : s.tables .factSales ≠ []) :
    (s.publish silverVersions changed previous).published .factSales =
      if changed .factSales then s.latest .factSales
      else rowsAt (commit (s.tables .factSales) (s.latest .factSales))
        (previous .factSales + 1) := by
  rw [published_eq_view (activeRelease_publish s silverVersions changed previous)]
  have hlog := withFacts_factSales (s := s) (commit (s.tables .factSales) (s.latest .factSales))
  show rowsAt ((s.withFacts (commit (s.tables .factSales) (s.latest .factSales))).tables .factSales)
    ((if changed .factSales then latestVersion (s.tables .factSales) else previous .factSales) + 1)
    = _
  rw [hlog]
  split
  · have hlength : latestVersion (s.tables .factSales) + 1 = (s.tables .factSales).length := by
      have := List.length_pos_of_ne_nil hne
      rw [latestVersion]
      omega
    rw [hlength, rowsAt_commit_length]
  · rfl

@[simp] theorem latest_publish (s : GoldState) (silverVersions : SilverTable → ℕ)
    (changed : GoldTable → Bool) (previous : GoldTable → ℕ) :
    (s.publish silverVersions changed previous).latest = s.latest := by
  funext t
  show latestRows ((s.withFacts _).tables t) = _
  rcases eq_or_ne t .factSales with rfl | ht
  · rw [withFacts_factSales, latestRows_commit]
  · rw [withFacts_of_ne ht]
    rfl

/-- Before the first release nothing is pinned. -/
theorem pinsExist_empty : empty.PinsExist :=
  fun _ h ↦ absurd h List.not_mem_nil

/-- The pins of the old releases still exist in a later state. -/
theorem PinsExist.of_extends (h : s.PinsExist) (hextends : s.Extends s')
    (hreleases : s'.releases = s.releases) : s'.PinsExist :=
  fun release hrelease t ↦ (h release (hreleases ▸ hrelease) t).trans_le
    (hextends.tables t).length_le

/-- A publication pins versions that exist. -/
theorem PinsExist.publish (h : s.PinsExist) (silverVersions : SilverTable → ℕ)
    {changed : GoldTable → Bool} {previous : GoldTable → ℕ}
    (hne : ∀ t, changed t = true → s.tables t ≠ [])
    (hprevious : ∀ t, changed t = false → previous t < (s.tables t).length) :
    (s.publish silverVersions changed previous).PinsExist := by
  have hcommitted : ∀ t, (if changed t then latestVersion (s.tables t) else previous t) <
      (s.tables t).length := by
    intro t
    split
    · rename_i hchanged
      exact Nat.sub_one_lt (mt List.length_eq_zero_iff.1 (hne t hchanged))
    · rename_i hchanged
      exact hprevious t (Bool.not_eq_true _ ▸ hchanged)
  intro release hrelease t
  rcases List.mem_append.1 hrelease with hold | hnew
  · exact (h release hold t).trans_le
      ((extends_publish s silverVersions changed previous).tables t).length_le
  · rw [List.mem_singleton.1 hnew]
    show (if t = .factSales then _ else _) < ((s.withFacts _).tables t).length
    rcases eq_or_ne t .factSales with rfl | ht
    · rw [if_pos rfl, withFacts_factSales, length_commit]
      exact Nat.add_lt_add_right (hcommitted _) 1
    · rw [if_neg ht, withFacts_of_ne ht]
      exact hcommitted t

end GoldState

/-! ### What a run does -/

section Step

variable (fns : SparkFunctions) (hash : BusinessHash) (run : GoldRun) (s : GoldState)

/-- **Everything a run can do to the Gold layer.** -/
inductive RunStep : GoldState → GoldOutcome → Prop
  /-- It publishes nothing, whatever it has written. -/
  | unpublished {s' : GoldState} {outcome : GoldOutcome} (hextends : s.Extends s')
      (hreleases : s'.releases = s.releases)
      (houtcome : ∀ changed built, outcome ≠ .published changed built) : RunStep s' outcome
  /-- A full run passes its gate. -/
  | full {log : List (List (GoldRow .factSales))}
      (hfull : run.fullRebuild = true ∨ s.activeRelease = none)
      (hjobs : ∀ t, (fullJobs fns run.lake run.fullRebuild).perform s t =
        some ((run.dimensionState (fullJobs fns run.lake run.fullRebuild) s).tables t))
      (hfacts : (fullJob run.fullRebuild .factSales (buildFactSales fns run.lake.factSources
          (run.dimensionState (fullJobs fns run.lake run.fullRebuild) s).latest.factDimensions)
        ).perform
          ((run.dimensionState (fullJobs fns run.lake run.fullRebuild) s).tables .factSales) =
            some log)
      (hgate : qualityRun ((run.dimensionState (fullJobs fns run.lake run.fullRebuild) s).withFacts
        log).latest (run.lake.rows .orders) (run.lake.rows .orderItems) = .ok ()) :
      RunStep
        (((run.dimensionState (fullJobs fns run.lake run.fullRebuild) s).withFacts log).publish
          (currentSilverVersions run) (fun _ ↦ true) fun _ ↦ 0)
        (.published (fun _ ↦ true) ((fullJobs fns run.lake run.fullRebuild).built.withFacts
          (buildFactSales fns run.lake.factSources
            (run.dimensionState (fullJobs fns run.lake run.fullRebuild) s).latest.factDimensions)))
  /-- An incremental run finds metadata changes only. -/
  | metadataOnly {previous : GoldRelease} (hactive : s.activeRelease = some previous)
      (hincremental : run.fullRebuild = false)
      (hnone : ∀ t, changesSince hash run previous.silverVersions t = none) :
      RunStep
        (s.publish (refreshedVersions run previous.silverVersions) (fun _ ↦ false)
          previous.goldVersions)
        (.published (fun _ ↦ false) fun _ ↦ [])
  /-- An incremental run passes its gates. -/
  | incremental {previous : GoldRelease} (hactive : s.activeRelease = some previous)
      (hincremental : run.fullRebuild = false) {changes : SilverChanges}
      (hchanges : changes = changesSince hash run previous.silverVersions)
      {result : UpsertResult FactRow}
      (hjobs : ∀ t, (run.jobs fns s changes).perform s t =
        some ((run.dimensionState (run.jobs fns s changes) s).tables t))
      (hfacts : incrementalFacts fns (run.dimensionState (run.jobs fns s changes) s).latest
        run.lake.factSources (run.orderIds changes) = .ok (some result)) :
      RunStep
        (((run.dimensionState (run.jobs fns s changes) s).withMerged result).publish
          (refreshedVersions run previous.silverVersions)
          (fun t ↦ (run.jobs fns s changes t).isSome ||
            (t = .factSales && !(run.orderIds changes).isEmpty)) previous.goldVersions)
        (.published
          (fun t ↦ (run.jobs fns s changes t).isSome ||
            (t = .factSales && !(run.orderIds changes).isEmpty))
          ((run.jobs fns s changes).built.withFacts
            (rebuiltFacts fns run.lake.factSources
              (run.dimensionState (run.jobs fns s changes) s).latest.factDimensions
              (run.orderIds changes))))

end Step

section Cases

variable {fns : SparkFunctions} {hash : BusinessHash} {run : GoldRun} {s : GoldState}

/-- A dimension step that ends has done all jobs. -/
theorem perform_of_completesDimensions {jobs : GoldJobs}
    (h : run.completesDimensions jobs s = true) (t : GoldTable) :
    jobs.perform s t = some ((run.dimensionState jobs s).tables t) := by
  have hall := List.all_eq_true.1 (Bool.and_eq_true_iff.1 h).2 t (mem_goldTables t)
  obtain ⟨log, hlog⟩ := Option.isSome_iff_exists.1 hall
  show jobs.perform s t = some ((jobs.perform s t).getD (s.tables t))
  rw [hlog]
  rfl

/-- Then the state after the step is that of all jobs. -/
theorem afterDimensions_of_completesDimensions {jobs : GoldJobs}
    (h : run.completesDimensions jobs s = true) :
    run.afterDimensions jobs s = run.dimensionState jobs s :=
  if_pos h

/-- A full run is killed somewhere, fails its gate, or publishes what it built. -/
theorem runStep_runFull (hfull : run.fullRebuild = true ∨ s.activeRelease = none) :
    RunStep fns hash run s (runFull fns run s).1 (runFull fns run s).2 := by
  have hextends := GoldState.extends_afterDimensions run (fullJobs fns run.lake run.fullRebuild) s
  have hreleases : (run.afterDimensions (fullJobs fns run.lake run.fullRebuild) s).releases =
      s.releases := by
    rw [GoldRun.afterDimensions]
    split <;> rfl
  rw [runFull]
  dsimp only
  split
  · exact .unpublished hextends hreleases fun _ _ h ↦ by cases h
  rename_i hcompletes
  have hcompletes : run.completesDimensions (fullJobs fns run.lake run.fullRebuild) s = true := by
    simp only [Bool.or_eq_true, not_or, Bool.not_eq_true] at hcompletes
    simpa using hcompletes.1
  split
  · exact .unpublished hextends hreleases fun _ _ h ↦ by cases h
  rename_i log hlog
  have hfacts := GoldState.extends_withFacts (TableJob.prefix_perform hlog)
  split
  · exact .unpublished (hextends.trans hfacts) hreleases fun _ _ h ↦ by cases h
  rename_i hgate
  split
  · exact .unpublished (hextends.trans hfacts) hreleases fun _ _ h ↦ by cases h
  · rw [afterDimensions_of_completesDimensions hcompletes] at hlog hgate ⊢
    exact .full hfull (perform_of_completesDimensions hcompletes) hlog hgate

/-- An incremental run has nothing to do, finds metadata changes only, is killed, fails its gates,
or publishes its increment. -/
theorem runStep_runIncremental {previous : GoldRelease} (hactive : s.activeRelease = some previous)
    (hincremental : run.fullRebuild = false) :
    RunStep fns hash run s
      (runIncremental fns run s previous (changesSince hash run previous.silverVersions)).1
      (runIncremental fns run s previous (changesSince hash run previous.silverVersions)).2 := by
  set changes := changesSince hash run previous.silverVersions with hchanges
  have hextends := GoldState.extends_afterDimensions run (run.jobs fns s changes) s
  have hreleases : (run.afterDimensions (run.jobs fns s changes) s).releases = s.releases := by
    rw [GoldRun.afterDimensions]
    split <;> rfl
  rw [runIncremental]
  dsimp only
  split
  · exact .unpublished hextends hreleases fun _ _ h ↦ by cases h
  rename_i hcompletes
  have hcompletes : run.completesDimensions (run.jobs fns s changes) s = true := by
    simpa using hcompletes
  split
  · exact .unpublished hextends hreleases fun _ _ h ↦ by cases h
  split
  · exact .unpublished hextends hreleases fun _ _ h ↦ by cases h
  · exact .unpublished hextends hreleases fun _ _ h ↦ by cases h
  rename_i result hresult
  split
  · exact .unpublished hextends hreleases fun _ _ h ↦ by cases h
  split
  · exact .unpublished (hextends.trans (GoldState.extends_withMerged _ _))
      ((GoldState.releases_withMerged _ _).trans hreleases) fun _ _ h ↦ by cases h
  · rw [afterDimensions_of_completesDimensions hcompletes] at hresult ⊢
    exact .incremental hactive hincremental hchanges (perform_of_completesDimensions hcompletes)
      hresult

/-- A full run leaves no table without a version. -/
theorem perform_fullJob_ne_nil {replace : Bool} {t : GoldTable} {rows : List (GoldRow t)}
    {log log' : List (List (GoldRow t))}
    (h : (fullJob replace t rows).perform log = some log') : log' ≠ [] := by
  rcases eq_or_ne log [] with rfl | hlog
  · rw [fullJob] at h
    split at h
    · exact Option.some.inj h ▸ List.append_ne_nil_of_right_ne_nil _ (List.cons_ne_nil _ _)
    · exact Option.some.inj h ▸ List.append_ne_nil_of_right_ne_nil _ (List.cons_ne_nil _ _)
  · exact List.IsPrefix.ne_nil (TableJob.prefix_perform h) hlog

/-- The tables a full run publishes have versions. -/
theorem tables_ne_nil_of_full {log : List (List (GoldRow .factSales))}
    (hjobs : ∀ t, (fullJobs fns run.lake run.fullRebuild).perform s t =
      some ((run.dimensionState (fullJobs fns run.lake run.fullRebuild) s).tables t))
    {facts : List (GoldRow .factSales)}
    (hfacts : (fullJob run.fullRebuild .factSales facts).perform
      ((run.dimensionState (fullJobs fns run.lake run.fullRebuild) s).tables .factSales) = some log)
    (t : GoldTable) :
    ((run.dimensionState (fullJobs fns run.lake run.fullRebuild) s).withFacts log).tables t ≠
      [] := by
  rcases eq_or_ne t .factSales with rfl | ht
  · rw [GoldState.withFacts_factSales]
    exact perform_fullJob_ne_nil hfacts
  · rw [GoldState.withFacts_of_ne ht]
    have hjob := hjobs t
    rw [GoldJobs.perform, fullJobs, if_neg ht] at hjob
    exact perform_fullJob_ne_nil hjob

/-- **A run keeps all versions and releases.** -/
theorem RunStep.extends {s' : GoldState} {outcome : GoldOutcome}
    (h : RunStep fns hash run s s' outcome) : s.Extends s' := by
  cases h with
  | unpublished hextends => exact hextends
  | full hfull hjobs hfacts hgate =>
    exact (GoldState.extends_afterJobs _ _ _ _ _).trans
      ((GoldState.extends_withFacts (TableJob.prefix_perform hfacts)).trans
        (GoldState.extends_publish _ _ _ _))
  | metadataOnly => exact GoldState.extends_publish _ _ _ _
  | incremental =>
    exact (GoldState.extends_afterJobs _ _ _ _ _).trans
      ((GoldState.extends_withMerged _ _).trans (GoldState.extends_publish _ _ _ _))

/-- **A run pins versions that exist.** -/
theorem RunStep.pinsExist {s' : GoldState} {outcome : GoldOutcome}
    (h : RunStep fns hash run s s' outcome) (hpins : s.PinsExist) : s'.PinsExist := by
  cases h with
  | unpublished hextends hreleases => exact hpins.of_extends hextends hreleases
  | full hfull hjobs hfacts hgate =>
    refine (hpins.of_extends ((GoldState.extends_afterJobs _ _ _ _ _).trans
      (GoldState.extends_withFacts (TableJob.prefix_perform hfacts))) rfl).publish _ ?_ ?_
    · exact fun t _ ↦ tables_ne_nil_of_full hjobs hfacts t
    · exact fun _ h ↦ absurd h Bool.noConfusion
  | metadataOnly hactive =>
    refine hpins.publish _ (fun _ h ↦ absurd h Bool.noConfusion) fun t _ ↦ ?_
    exact hpins _ (GoldState.activeRelease_mem hactive) t
  | @incremental previous hactive _ changes _ result hjobs hfacts =>
    have hextends := (GoldState.extends_afterJobs s run.lake (run.jobs fns s changes)
      (fun _ ↦ true) true).trans (GoldState.extends_withMerged _ result)
    have hlength := fun t ↦ (hpins _ (GoldState.activeRelease_mem hactive) t).trans_le
      (hextends.tables t).length_le
    refine (hpins.of_extends hextends (GoldState.releases_withMerged _ _)).publish _ ?_ ?_
    · exact fun t _ ↦ List.ne_nil_of_length_pos (Nat.zero_lt_of_lt (hlength t))
    · exact fun t _ ↦ hlength t

/-- **A run does one of the four.** -/
theorem runStep_runGold (fns : SparkFunctions) (hash : BusinessHash) (run : GoldRun)
    (s : GoldState) :
    RunStep fns hash run s (runGold fns hash run s).1 (runGold fns hash run s).2 := by
  rw [runGold]
  split
  · rename_i hnone
    exact runStep_runFull (Or.inr hnone)
  rename_i previous hactive
  split
  · rename_i hfull
    exact runStep_runFull (Or.inl hfull)
  rename_i hincremental
  have hincremental : run.fullRebuild = false := by simpa using hincremental
  dsimp only
  split
  · exact .unpublished (.refl _) rfl fun _ _ h ↦ by cases h
  split
  · exact .unpublished (.refl _) rfl fun _ _ h ↦ by cases h
  split
  · rename_i hnone
    split
    · exact .unpublished (.refl _) rfl fun _ _ h ↦ by cases h
    · refine .metadataOnly hactive hincremental fun t ↦ ?_
      exact Option.isNone_iff_eq_none.1 (List.all_eq_true.1 hnone t (mem_silverTables t))
  · exact runStep_runIncremental hactive hincremental

/-- The last of several runs starts from the state the others leave. -/
theorem runGolds_concat (fns : SparkFunctions) (hash : BusinessHash) (s : GoldState)
    (runs : List GoldRun) (run : GoldRun) : runGolds fns hash s (runs ++ [run]) =
      (runGold fns hash run (runGolds fns hash s runs)).1 := by
  rw [runGolds, List.foldl_append]
  rfl

/-- Every run of a sequence, in the state it starts from. -/
def AllRuns (fns : SparkFunctions) (hash : BusinessHash) (p : GoldState → GoldRun → Prop) :
    GoldState → List GoldRun → Prop
  | _, [] => True
  | s, run :: runs => p s run ∧ AllRuns fns hash p (runGold fns hash run s).1 runs

instance AllRuns.decidable (fns : SparkFunctions) (hash : BusinessHash)
    (p : GoldState → GoldRun → Prop) [∀ s run, Decidable (p s run)] :
    (s : GoldState) → (runs : List GoldRun) → Decidable (AllRuns fns hash p s runs)
  | _, [] => .isTrue trivial
  | s, run :: runs =>
    have := AllRuns.decidable fns hash p (runGold fns hash run s).1 runs
    inferInstanceAs (Decidable (p s run ∧ _))

/-- What holds of every run holds of all but the last and of the last. -/
theorem allRuns_concat {p : GoldState → GoldRun → Prop} {s : GoldState} {runs : List GoldRun}
    {run : GoldRun} : AllRuns fns hash p s (runs ++ [run]) ↔
      AllRuns fns hash p s runs ∧ p (runGolds fns hash s runs) run := by
  induction runs generalizing s with
  | nil => exact and_comm
  | cons first runs ih =>
    show p s first ∧ AllRuns fns hash p _ (runs ++ [run]) ↔ _
    rw [ih, ← and_assoc]
    rfl

/-- **From one run to all**: what a run guarantees in a reachable state, every run does. -/
theorem allRuns_of_step {p q : GoldState → GoldRun → Prop} {inv : GoldState → Prop} {s : GoldState}
    {runs : List GoldRun} (hinv : inv s) (hall : AllRuns fns hash p s runs)
    (hstep : ∀ s run, inv s → p s run → q s run ∧ inv (runGold fns hash run s).1) :
    AllRuns fns hash q s runs ∧ inv (runGolds fns hash s runs) := by
  induction runs generalizing s with
  | nil => exact ⟨trivial, hinv⟩
  | cons run runs ih =>
    obtain ⟨hq, hnext⟩ := hstep s run hinv hall.1
    obtain ⟨hqs, hlast⟩ := ih hnext hall.2
    exact ⟨⟨hq, hqs⟩, hlast⟩

/-- **In every reachable state the releases pin versions that exist.** -/
theorem pinsExist_runGolds {s : GoldState} (hpins : s.PinsExist) (runs : List GoldRun) :
    (runGolds fns hash s runs).PinsExist := by
  induction runs generalizing s with
  | nil => exact hpins
  | cons run runs ih => exact ih ((runStep_runGold fns hash run s).pinsExist hpins)

end Cases

end LakehousePipeline
