import LakehousePipeline.Gold.ReleaseContent

/-!
# No rejected candidate becomes visible

A run writes before it is accepted, so a run that is rejected or breaks off leaves rows behind that
no release shows. A full run writes over all of them. An incremental run publishes the latest rows
of the tables it has jobs for, so such rows stay hidden if its jobs write over them; and it pins the
version of `fact_sales` after the pinned one when no order is affected, so that version must not be
one a broken run has left (`CleansUp`). In every sequence of runs that clean up, readers see rows
that an earlier release has shown or that the publishing run has built (`showsAccepted_runGolds`).

The step lemma (`shown_or_built`) follows a row of a new release back to the job that left it: the
job has built it, or has found it and not written over it. What it found is the latest version of
the table, so the condition is about the rows there that the release before does not show. A table
without a job is pinned at the version it had. The fact step needs its own case, as it may be
skipped and the version pinned all the same.
-/

namespace LakehousePipeline

open TableLog

/-! ### What readers see -/

/-- A release that has been published shows the row. -/
def GoldState.Shown (s : GoldState) (t : GoldTable) (row : GoldRow t) : Prop :=
  ∃ release ∈ s.releases, row ∈ s.view release t

/-- A run that does not change the facts shows the facts of the release before. -/
def KeepsFacts (fns : SparkFunctions) (hash : BusinessHash) (s : GoldState) (run : GoldRun) :
    Prop :=
  (runGold fns hash run s).2.keepsFacts = true →
    List.Perm ((runGold fns hash run s).1.published .factSales) (s.published .factSales)

/-- **Readers see accepted rows only**: after these runs, every row of the active release was shown
by an earlier release or built by the run that published it, and runs that did not change the facts
have shown the facts of the release before. -/
structure ShowsAccepted (fns : SparkFunctions) (hash : BusinessHash) (runs : List GoldRun) :
    Prop where
  rows : ∀ t, ∀ row ∈ (runGolds fns hash .empty runs).published t,
    ∃ before run after changed built, runs = before ++ run :: after ∧
      (runGold fns hash run (runGolds fns hash .empty before)).2 = .published changed built ∧
      (runGolds fns hash .empty (before ++ [run])).releases =
        (runGolds fns hash .empty runs).releases ∧
      ((runGolds fns hash .empty before).Shown t row ∨ row ∈ built t)
  facts : AllRuns fns hash (KeepsFacts fns hash) .empty runs

/-! ### Cleaning up -/

/-- The job writes over a row it finds in its table. -/
def TableJob.Rewrites {t : GoldTable} (row : GoldRow t) : TableJob t → Prop
  | skip | missingCheckpoint => False
  | append members => row ∈ members
  | upsert rows options _ =>
    goldKey t row ∈ rows.map (goldKey t) ∨ goldKey t row ∈ options.deleteKeys.getD []
  | overwrite _ => True

/-- What an incremental run has to find or write over. -/
structure RewritesUnpublished (fns : SparkFunctions) (s : GoldState) (run : GoldRun)
    (previous : GoldRelease) (changes : SilverChanges) : Prop where
  /-- The jobs write over the members no release has shown. -/
  members : ∀ t, ∀ job ∈ run.jobs fns s changes t,
    ∀ row ∈ s.latest t, s.Shown t row ∨ job.Rewrites row
  /-- Facts no release has shown are of affected orders. -/
  facts : run.orderIds changes ≠ [] → ∀ fact ∈ s.latest .factSales,
    s.Shown .factSales fact ∨ FactRow.sourceOrderId fact ∈ run.orderIds changes
  /-- Without affected orders, the version after the pinned one has the pinned facts. -/
  factVersion : run.orderIds changes = [] →
    ∀ rows ∈ (s.tables .factSales)[previous.goldVersions .factSales + 1]?,
      List.Perm rows (s.published .factSales)

/-- **The condition on a run**: if it publishes incrementally, it writes over what broken runs
left. -/
def CleansUp (fns : SparkFunctions) (hash : BusinessHash) (s : GoldState) (run : GoldRun) : Prop :=
  (runGold fns hash run s).2.publishes = true → run.fullRebuild = false →
    ∀ previous ∈ s.activeRelease,
      RewritesUnpublished fns s run previous (changesSince hash run previous.silverVersions)

instance (s : GoldState) (t : GoldTable) (row : GoldRow t) : Decidable (s.Shown t row) :=
  inferInstanceAs (Decidable (∃ _ ∈ _, _))

instance {t : GoldTable} (row : GoldRow t) : (job : TableJob t) → Decidable (job.Rewrites row)
  | .skip | .missingCheckpoint => inferInstanceAs (Decidable False)
  | .append members => inferInstanceAs (Decidable (row ∈ members))
  | .upsert _ _ _ => inferInstanceAs (Decidable (_ ∨ _))
  | .overwrite _ => inferInstanceAs (Decidable True)

instance (fns : SparkFunctions) (s : GoldState) (run : GoldRun) (previous : GoldRelease)
    (changes : SilverChanges) : Decidable (RewritesUnpublished fns s run previous changes) :=
  decidable_of_iff
    ((∀ t ∈ goldTables, ∀ job ∈ run.jobs fns s changes t,
        ∀ row ∈ s.latest t, s.Shown t row ∨ job.Rewrites row) ∧
      (run.orderIds changes ≠ [] → ∀ fact ∈ s.latest .factSales,
        s.Shown .factSales fact ∨ FactRow.sourceOrderId fact ∈ run.orderIds changes) ∧
      (run.orderIds changes = [] →
        ∀ rows ∈ (s.tables .factSales)[previous.goldVersions .factSales + 1]?,
          List.Perm rows (s.published .factSales)))
    ⟨fun h ↦ ⟨fun t ↦ h.1 t (mem_goldTables t), h.2.1, h.2.2⟩,
      fun h ↦ ⟨fun t _ ↦ h.members t, h.facts, h.factVersion⟩⟩

instance (fns : SparkFunctions) (hash : BusinessHash) (s : GoldState) (run : GoldRun) :
    Decidable (CleansUp fns hash s run) :=
  inferInstanceAs (Decidable (_ → _ → _))

/-! ### Where rows come from -/

variable {fns : SparkFunctions} {hash : BusinessHash} {run : GoldRun} {s s' : GoldState}

/-- **A job leaves its own rows and those it does not write over.** -/
theorem TableJob.mem_of_perform {t : GoldTable} {job : TableJob t}
    {log log' : List (List (GoldRow t))} (h : job.perform log = some log') {row : GoldRow t}
    (hrow : row ∈ latestRows log') :
      row ∈ job.built ∨ row ∈ latestRows log ∧ ¬job.Rewrites row := by
  cases job with
  | skip =>
    rw [← Option.some.inj h] at hrow
    exact Or.inr ⟨hrow, not_false⟩
  | append members =>
    obtain ⟨rows, hrows, rfl⟩ := Option.map_eq_some_iff.1 h
    obtain ⟨added, hadded, hmem, -⟩ := appendNewRows_eq_some (goldKey t) (latestRows log) members
    rw [hadded] at hrows
    rw [latestRows_commit, ← Option.some.inj hrows, List.mem_append] at hrow
    rcases Classical.em (row ∈ members) with hin | hout
    · exact Or.inl hin
    · exact Or.inr ⟨hrow.resolve_right fun hnew ↦ hout (hmem row hnew), hout⟩
  | upsert rows options hpreserve =>
    obtain ⟨result, hresult, rfl⟩ := Option.map_eq_some_iff.1 h
    rw [latestRows_upsertTable hresult] at hrow
    split at hresult
    · rw [← Option.some.inj hresult] at hrow
      exact Or.inl hrow
    · rcases mem_of_upsertTable hpreserve hresult hrow with hin | ⟨hkept, hkey, hdelete, -⟩
      · exact Or.inl hin
      · exact Or.inr ⟨hkept, fun h ↦ h.elim hkey hdelete⟩
  | overwrite rows =>
    rw [← Option.some.inj h, latestRows_commit] at hrow
    exact Or.inl hrow
  | missingCheckpoint => cases h

/-- **The merge of the facts leaves rebuilt facts and those of other orders.** -/
theorem mem_of_mergeFacts {existing facts : List FactRow} {orderIds : List ℤ}
    {result : UpsertResult FactRow} (h : mergeFacts existing facts orderIds = some result)
    {fact : FactRow} (hfact : fact ∈ result.rows) :
    fact ∈ facts ∨ fact ∈ existing ∧ fact.sourceOrderId ∉ orderIds := by
  rcases mem_of_upsertTable rfl h hfact with hin | ⟨hkept, hkey, hdelete, -⟩
  · exact Or.inl hin
  · refine Or.inr ⟨hkept, fun hid ↦ hdelete ?_⟩
    -- a fact of an affected order that is not built again is stale
    refine List.mem_filter.2 ⟨List.mem_map_of_mem (mem_filterIds.2 ⟨hkept, _, hid, rfl⟩), ?_⟩
    exact decide_eq_true hkey

/-! ### One run -/

/-- What the active release shows is shown. -/
theorem shown_of_mem_published {t : GoldTable} {row : GoldRow t} (h : row ∈ s.published t) :
    s.Shown t row := by
  rw [GoldState.published] at h
  cases hactive : s.activeRelease with
  | none =>
    rw [hactive] at h
    exact absurd h List.not_mem_nil
  | some release =>
    rw [hactive] at h
    exact ⟨release, GoldState.activeRelease_mem hactive, h⟩

/-- Without affected orders the facts are those of the release before. -/
theorem facts_perm_of_orderIds_eq_nil {changed : GoldTable → Bool} {built : GoldSnapshot}
    {previous : GoldRelease} {changes : SilverChanges} (hpins : s.PinsExist)
    (h : IncrementalRelease fns run s s' previous changes changed built)
    (hclean : RewritesUnpublished fns s run previous changes) (hnil : run.orderIds changes = []) :
    List.Perm (s'.published .factSales) (s.published .factSales) := by
  have hversion := hclean.factVersion hnil
  rw [published_eq_rowsAt h.active] at hversion ⊢
  rw [h.facts_kept hnil]
  exact rowsAt_succ_commit_perm (hpins _ (GoldState.activeRelease_mem h.active) _) hversion

/-- **The step**: what a run that cleans up publishes was shown before or built by the run. -/
theorem shown_or_built (hpins : s.PinsExist) (hclean : CleansUp fns hash s run)
    {changed : GoldTable → Bool} {built : GoldSnapshot}
    (h : (runGold fns hash run s).2 = .published changed built) {t : GoldTable} {row : GoldRow t}
    (hrow : row ∈ (runGold fns hash run s).1.published t) : s.Shown t row ∨ row ∈ built t := by
  have hstep := runStep_runGold fns hash run s
  rw [h] at hstep
  rcases hstep.release hpins with hfull | ⟨previous, hincrement⟩
  · rw [hfull.published_eq] at hrow
    exact Or.inr (hfull.mem_built t row hrow)
  have hrewrites := hclean (by rw [h]; rfl) hincrement.incremental previous hincrement.active
  rcases eq_or_ne t .factSales with rfl | ht
  · rcases eq_or_ne (run.orderIds (changesSince hash run previous.silverVersions)) []
      with hnil | hcons
    · exact Or.inl (shown_of_mem_published
        ((facts_perm_of_orderIds_eq_nil hpins hincrement hrewrites hnil).mem_iff.1 hrow))
    · obtain ⟨-, result, hmerge, hpublished⟩ := hincrement.facts_merged hcons
      rw [hpublished] at hrow
      rcases mem_of_mergeFacts hmerge hrow with hbuilt | ⟨hkept, hother⟩
      · exact Or.inr hbuilt
      · exact Or.inl ((hrewrites.facts hcons row hkept).resolve_right hother)
  · rw [hincrement.published_eq t ht] at hrow
    cases hjob : run.jobs fns s (changesSince hash run previous.silverVersions) t with
    | none =>
      rw [hjob] at hrow
      exact Or.inl (shown_of_mem_published hrow)
    | some job =>
      rw [hjob] at hrow
      have hperform := hincrement.perform_eq t ht
      rw [GoldJobs.perform, hjob] at hperform
      rcases TableJob.mem_of_perform hperform hrow with hbuilt | ⟨hkept, hother⟩
      · exact Or.inr (hincrement.built_eq t job hjob ▸ hbuilt)
      · exact Or.inl ((hrewrites.members t job hjob row hkept).resolve_right hother)

/-! ### All runs -/

/-- A run that publishes nothing changes nothing for readers. -/
theorem published_eq_of_not_published (hpins : s.PinsExist)
    (h : ∀ changed built, (runGold fns hash run s).2 ≠ .published changed built) :
    (runGold fns hash run s).1.releases = s.releases ∧
      (runGold fns hash run s).1.published = s.published := by
  have hstep := runStep_runGold fns hash run s
  have hextends := hstep.extends
  have hreleases : (runGold fns hash run s).1.releases = s.releases := by
    generalize (runGold fns hash run s).1 = s', (runGold fns hash run s).2 = outcome at hstep h ⊢
    cases hstep with
    | unpublished _ hreleases => exact hreleases
    | full | metadataOnly | incremental => exact absurd rfl (h _ _)
  refine ⟨hreleases, ?_⟩
  cases hactive : s.activeRelease with
  | none =>
    have hactive' : (runGold fns hash run s).1.activeRelease = none := by
      rw [GoldState.activeRelease, hreleases]
      exact hactive
    funext t
    rw [GoldState.published, GoldState.published, hactive, hactive']
    rfl
  | some release =>
    have hactive' : (runGold fns hash run s).1.activeRelease = some release := by
      rw [GoldState.activeRelease, hreleases]
      exact hactive
    rw [GoldState.published_eq_view hactive, GoldState.published_eq_view hactive']
    exact GoldState.view_of_extends hpins hextends (GoldState.activeRelease_mem hactive)

/-- A run that keeps the facts has published. -/
theorem exists_of_keepsFacts {outcome : GoldOutcome} (h : outcome.keepsFacts = true) :
    ∃ changed built, outcome = .published changed built ∧ changed .factSales = false := by
  cases outcome with
  | published changed built => exact ⟨changed, built, rfl, Bool.not_eq_true' _ ▸ h⟩
  | upToDate | rejected | failed => cases h

/-- A run that cleans up shows the old facts, or facts it has changed. -/
theorem keepsFacts_of_cleansUp (hpins : s.PinsExist) (hclean : CleansUp fns hash s run) :
    KeepsFacts fns hash s run := by
  intro hkeeps
  obtain ⟨changed, built, houtcome, hchanged⟩ := exists_of_keepsFacts hkeeps
  have hstep := runStep_runGold fns hash run s
  rw [houtcome] at hstep
  rcases hstep.release hpins with hfull | ⟨previous, hincrement⟩
  · exact absurd (hfull.changed_eq .factSales) (hchanged ▸ Bool.false_ne_true)
  · have hnil : run.orderIds (changesSince hash run previous.silverVersions) = [] := by
      rw [hincrement.changed_eq, Bool.or_eq_false_iff] at hchanged
      simpa using hchanged.2
    exact facts_perm_of_orderIds_eq_nil hpins hincrement
      (hclean (by rw [houtcome]; rfl) hincrement.incremental previous hincrement.active) hnil

/-- **Readers see accepted rows only**, in every sequence of runs that clean up after broken
ones. -/
theorem showsAccepted_runGolds (fns : SparkFunctions) (hash : BusinessHash) (runs : List GoldRun)
    (hclean : AllRuns fns hash (CleansUp fns hash) .empty runs) : ShowsAccepted fns hash runs := by
  have hpins : ∀ runs, (runGolds fns hash .empty runs).PinsExist :=
    pinsExist_runGolds GoldState.pinsExist_empty
  constructor
  case facts =>
    refine (allRuns_of_step GoldState.pinsExist_empty hclean fun s run hpins hclean ↦ ?_).1
    exact ⟨keepsFacts_of_cleansUp hpins hclean, (runStep_runGold fns hash run s).pinsExist hpins⟩
  case rows =>
    induction runs using List.reverseRecOn with
    | nil => exact fun t row hrow ↦ absurd hrow List.not_mem_nil
    | append_singleton runs run ih =>
      intro t row hrow
      obtain ⟨hcleans, hclean⟩ := allRuns_concat.1 hclean
      rw [runGolds_concat] at hrow ⊢
      cases houtcome : (runGold fns hash run (runGolds fns hash .empty runs)).2 with
      | published changed built =>
        refine ⟨runs, run, [], changed, built, rfl, houtcome, ?_, ?_⟩
        · rw [runGolds_concat]
        · exact shown_or_built (hpins runs) hclean houtcome hrow
      | upToDate | rejected | failed =>
        obtain ⟨hreleases, hpublished⟩ := published_eq_of_not_published (hpins runs)
          (fun _ _ h ↦ by rw [houtcome] at h; cases h)
        rw [hpublished] at hrow
        obtain ⟨before, run', after, changed, built, hruns, hrun, hrel, hor⟩ :=
          ih hcleans t row hrow
        refine ⟨before, run', after ++ [run], changed, built, ?_, hrun, ?_, hor⟩
        · rw [hruns, List.append_assoc, List.cons_append]
        · rw [hrel, hreleases]

/-! ### A retry, and a rejected rebuild -/

/-- The small lake after its shop was renamed. -/
def renamedLake : SilverLake :=
  smallLake [{ rows := [smallRow 7 (smallShop 'b')]
               feed := mergeFeed [smallRow 7 (smallShop 'a')] [smallRow 7 (smallShop 'b')] }]
    [[smallHistory 't' 7 (smallShop 'b') 150]] [] []

/-- A first run, an incremental run killed before it publishes the renamed shop, and its retry. -/
def retriedRuns : List GoldRun :=
  [smallRun (smallLake [] [] [] []) false,
    { smallRun renamedLake false with interruption := some .publish }, smallRun renamedLake false]

/-- The retry writes over what the killed run has left. -/
theorem showsAccepted_retriedRuns : ShowsAccepted .plain smallHash retriedRuns :=
  showsAccepted_runGolds .plain smallHash retriedRuns (by decide +kernel)

/-- The small lake after a late event: product 20 was in category 41 before the order, a category
Gold does not know. The current row moved in its ingestion metadata only. -/
def movedLake : SilverLake :=
  let row := smallRow 20 (smallProduct 40)
  smallLake [] [] [{ rows := [{ row with ingestionPriority := 2 }]
                     feed := mergeFeed [row] [{ row with ingestionPriority := 2 }] }]
    [[smallHistory 'q' 20 (smallProduct 41) 50]]

/-- A first run, a full rebuild that is rejected for an unresolved category, and a scheduled run. -/
def rejectedRuns : List GoldRun :=
  [smallRun (smallLake [] [] [] []) false, smallRun movedLake true, smallRun movedLake false]

example : (match (runGold .plain smallHash (smallRun movedLake true)
      (runGolds .plain smallHash .empty (rejectedRuns.take 1))).2 with
    | .rejected error => some error
    | _ => none) = some .unresolvedKey := by decide +kernel

/-- **The rejected facts become visible**: the scheduled run finds metadata changes only and
publishes the version of `fact_sales` after the pinned one, which the rejected rebuild has
written. -/
theorem not_showsAccepted_rejectedRuns : ¬ShowsAccepted .plain smallHash rejectedRuns := by
  intro h
  have hkept : KeepsFacts .plain smallHash
      (runGolds .plain smallHash .empty (rejectedRuns.take 2)) (smallRun movedLake false) :=
    h.facts.2.2.1
  have hperm := (hkept (by decide +kernel)).map FactRow.categoryKey
  have hafter : (0 : ℤ) ∈ ((runGold .plain smallHash (smallRun movedLake false)
      (runGolds .plain smallHash .empty (rejectedRuns.take 2))).1.published .factSales).map
        FactRow.categoryKey := by decide +kernel
  have hbefore : (0 : ℤ) ∉ ((runGolds .plain smallHash .empty
      (rejectedRuns.take 2)).published .factSales).map FactRow.categoryKey := by decide +kernel
  exact hbefore (hperm.mem_iff.1 hafter)

end LakehousePipeline
