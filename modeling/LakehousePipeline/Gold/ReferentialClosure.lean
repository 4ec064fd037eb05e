import LakehousePipeline.Gold.AcceptedRows

/-!
# Published releases are referentially closed

A full run checks every foreign key of every fact. An incremental run checks the facts it rebuilds
against the latest members, and leaves the facts of all other orders to what the previous release
has guaranteed. So its release is closed if the members those facts refer to are still there: no
replay may drop the key of one (`KeepsReferences`). A replay does drop a key when a late event moves
the start of a version, as the start is part of the key.
-/

namespace LakehousePipeline

open TableLog

instance (gold : GoldSnapshot) : Decidable gold.Closed :=
  inferInstanceAs (Decidable (∀ _ ∈ _, ∀ _ ∈ _, _))

/-! ### The condition -/

/-- The job leaves the member a key. -/
def TableJob.Keeps {t : GoldTable} (row : GoldRow t) : TableJob t → Prop
  | skip | append _ | missingCheckpoint => True
  | upsert _ options _ => goldKey t row ∉ options.deleteKeys.getD [] ∧
    options.deleteNotMatchedBySource = false
  | overwrite rows => goldKey t row ∈ rows.map (goldKey t)

instance {t : GoldTable} (row : GoldRow t) : (job : TableJob t) → Decidable (job.Keeps row)
  | .skip | .append _ | .missingCheckpoint => inferInstanceAs (Decidable True)
  | .upsert _ _ _ => inferInstanceAs (Decidable (_ ∧ _))
  | .overwrite rows => inferInstanceAs (Decidable (goldKey t row ∈ rows.map (goldKey t)))

/-- After the job there is a member with the key: it is built, or there already and kept. -/
def TableJob.Provides {t : GoldTable} (key : ℤ) (existing : List (GoldRow t)) (job : TableJob t) :
    Prop :=
  key ∈ job.built.map (memberKey t) ∨ ∃ row ∈ existing, memberKey t row = key ∧ job.Keeps row

instance {t : GoldTable} (key : ℤ) (existing : List (GoldRow t)) (job : TableJob t) :
    Decidable (job.Provides key existing) :=
  inferInstanceAs (Decidable (_ ∨ _))

/-- What an incremental run has to leave to the facts it does not rebuild. -/
structure KeepsReferences (fns : SparkFunctions) (s : GoldState) (run : GoldRun)
    (previous : GoldRelease) (changes : SilverChanges) : Prop where
  /-- The members those facts refer to stay. -/
  members : ∀ reference ∈ foreignKeys, ∀ job ∈ run.jobs fns s changes reference.1,
    ∀ fact ∈ s.published.facts, fact.sourceOrderId ∉ run.orderIds changes →
      job.Provides (reference.2 fact) (s.latest reference.1)
  /-- The facts of other orders are those the release shows. -/
  facts : run.orderIds changes ≠ [] → ∀ fact ∈ s.latest.facts,
    fact.sourceOrderId ∉ run.orderIds changes → fact ∈ s.published.facts
  /-- Without affected orders, the version after the pinned one has the pinned facts. -/
  factVersion : run.orderIds changes = [] →
    ∀ rows ∈ (s.tables .factSales)[previous.goldVersions .factSales + 1]?,
      List.Perm rows (s.published .factSales)
  /-- A dimension that is not written has no unpublished members. -/
  unpublished : run.orderIds changes ≠ [] → ∀ reference ∈ foreignKeys,
    run.jobs fns s changes reference.1 = none →
      ∀ key ∈ s.latest.members reference.1, key ∈ s.published.members reference.1

instance (fns : SparkFunctions) (s : GoldState) (run : GoldRun) (previous : GoldRelease)
    (changes : SilverChanges) : Decidable (KeepsReferences fns s run previous changes) :=
  decidable_of_iff
    ((∀ reference ∈ foreignKeys, ∀ job ∈ run.jobs fns s changes reference.1,
        ∀ fact ∈ s.published.facts, fact.sourceOrderId ∉ run.orderIds changes →
          job.Provides (reference.2 fact) (s.latest reference.1)) ∧
      (run.orderIds changes ≠ [] → ∀ fact ∈ s.latest.facts,
        fact.sourceOrderId ∉ run.orderIds changes → fact ∈ s.published.facts) ∧
      (run.orderIds changes = [] →
        ∀ rows ∈ (s.tables .factSales)[previous.goldVersions .factSales + 1]?,
          List.Perm rows (s.published .factSales)) ∧
      (run.orderIds changes ≠ [] → ∀ reference ∈ foreignKeys,
        (run.jobs fns s changes reference.1).isNone = true →
          ∀ key ∈ s.latest.members reference.1, key ∈ s.published.members reference.1))
    ⟨fun h ↦ ⟨h.1, h.2.1, h.2.2.1, fun hne r hr hnone ↦ h.2.2.2 hne r hr (by rw [hnone]; rfl)⟩,
      fun h ↦ ⟨h.members, h.facts, h.factVersion,
        fun hne r hr hnone ↦ h.unpublished hne r hr (Option.isNone_iff_eq_none.1 hnone)⟩⟩

/-- **The condition on a run**: if it publishes incrementally, it keeps the references of the facts
it does not rebuild. -/
def LeavesClosed (fns : SparkFunctions) (hash : BusinessHash) (s : GoldState) (run : GoldRun) :
    Prop :=
  (runGold fns hash run s).2.publishes = true → run.fullRebuild = false →
    ∀ previous ∈ s.activeRelease,
      KeepsReferences fns s run previous (changesSince hash run previous.silverVersions)

instance (fns : SparkFunctions) (hash : BusinessHash) (s : GoldState) (run : GoldRun) :
    Decidable (LeavesClosed fns hash s run) :=
  inferInstanceAs (Decidable (_ → _ → _))

/-! ### Members after a job -/

variable {fns : SparkFunctions} {hash : BusinessHash} {run : GoldRun} {s s' : GoldState}

/-- A row with the merge key of a member has its member key. -/
theorem memberKey_mem_of_goldKey_mem {t : GoldTable} (ht : t ≠ .factSales) {row : GoldRow t}
    {rows : List (GoldRow t)} (h : goldKey t row ∈ rows.map (goldKey t)) :
    memberKey t row ∈ rows.map (memberKey t) := by
  obtain ⟨row', hrow', hkey⟩ := List.mem_map.1 h
  exact List.mem_map.2 ⟨row', hrow', (goldKey_eq_iff ht row' row).1 hkey⟩

/-- **A job provides the members it builds and those it keeps.** -/
theorem TableJob.memberKey_mem_of_perform {t : GoldTable} (ht : t ≠ .factSales) {job : TableJob t}
    {log log' : List (List (GoldRow t))} (h : job.perform log = some log') {key : ℤ}
    (hkey : job.Provides key (latestRows log)) : key ∈ (latestRows log').map (memberKey t) := by
  cases job with
  | skip =>
    rw [← Option.some.inj h]
    rcases hkey with hbuilt | ⟨row, hrow, rfl, -⟩
    · exact absurd hbuilt List.not_mem_nil
    · exact List.mem_map_of_mem hrow
  | append members =>
    obtain ⟨rows, hrows, rfl⟩ := Option.map_eq_some_iff.1 h
    obtain ⟨added, hadded, -, hkeys⟩ := appendNewRows_eq_some (goldKey t) (latestRows log) members
    rw [latestRows_commit, ← Option.some.inj (hadded.symm.trans hrows)]
    rcases hkey with hbuilt | ⟨row, hrow, rfl, -⟩
    · obtain ⟨row, hrow, rfl⟩ := List.mem_map.1 hbuilt
      exact memberKey_mem_of_goldKey_mem ht (hkeys row hrow)
    · exact List.mem_map_of_mem (List.mem_append_left _ hrow)
  | upsert rows options hpreserve =>
    obtain ⟨result, hresult, rfl⟩ := Option.map_eq_some_iff.1 h
    rw [latestRows_upsertTable hresult]
    split at hresult
    · rename_i hnil
      rw [← Option.some.inj hresult]
      rcases hkey with hbuilt | ⟨row, hrow, -⟩
      · exact hbuilt
      · rw [List.isEmpty_iff.1 hnil] at hrow
        exact absurd hrow List.not_mem_nil
    · rcases hkey with hbuilt | ⟨row, hrow, rfl, hdelete, hkeep⟩
      · obtain ⟨row, hrow, rfl⟩ := List.mem_map.1 hbuilt
        exact memberKey_mem_of_goldKey_mem ht
          (key_mem_upsertTable_of_source hpreserve hresult hrow)
      · exact memberKey_mem_of_goldKey_mem ht
          (key_mem_upsertTable hpreserve hkeep hresult (List.mem_map_of_mem hrow) hdelete)
  | overwrite rows =>
    rw [← Option.some.inj h, latestRows_commit]
    rcases hkey with hbuilt | ⟨row, -, rfl, hkeep⟩
    · exact hbuilt
    · exact memberKey_mem_of_goldKey_mem ht hkeep
  | missingCheckpoint => cases h

/-! ### One run -/

/-- What a fact refers to that the run does not rebuild. -/
theorem refs_of_shown {changed : GoldTable → Bool} {built : GoldSnapshot} {previous : GoldRelease}
    {changes : SilverChanges}
    (h : IncrementalRelease fns run s s' previous changes changed built)
    (hkeeps : KeepsReferences fns s run previous changes) (hclosed : s.published.Closed)
    {fact : FactRow} (hfact : fact ∈ s.published .factSales)
    (horder : fact.sourceOrderId ∉ run.orderIds changes)
    {reference : GoldTable × (FactRow → ℤ)} (hreference : reference ∈ foreignKeys) :
    reference.2 fact ∈ s'.published.members reference.1 := by
  have ht := ne_factSales_of_mem_foreignKeys hreference
  rw [GoldSnapshot.members, h.published_eq _ ht]
  cases hjob : run.jobs fns s changes reference.1 with
  | none => exact hclosed fact hfact reference hreference
  | some job =>
    have hperform := h.perform_eq _ ht
    rw [GoldJobs.perform, hjob] at hperform
    exact TableJob.memberKey_mem_of_perform ht hperform
      (hkeeps.members reference hreference job hjob fact hfact horder)

/-- What a rebuilt fact refers to. -/
theorem refs_of_rebuilt {changed : GoldTable → Bool} {built : GoldSnapshot} {previous : GoldRelease}
    {changes : SilverChanges}
    (h : IncrementalRelease fns run s s' previous changes changed built)
    (hkeeps : KeepsReferences fns s run previous changes) (hcons : run.orderIds changes ≠ [])
    {reference : GoldTable × (FactRow → ℤ)} (hreference : reference ∈ foreignKeys) {key : ℤ}
    (hkey : key ∈ s'.latest.members reference.1) : key ∈ s'.published.members reference.1 := by
  have ht := ne_factSales_of_mem_foreignKeys hreference
  rw [GoldSnapshot.members, h.published_eq _ ht]
  cases hjob : run.jobs fns s changes reference.1 with
  | some job => exact hkey
  | none =>
    have hperform := h.perform_eq _ ht
    rw [GoldJobs.perform, hjob] at hperform
    refine hkeeps.unpublished hcons reference hreference hjob key ?_
    rw [GoldSnapshot.members, GoldState.latest, ← Option.some.inj hperform] at hkey
    exact hkey

/-- **The step**: a run that keeps the references leaves a closed release. -/
theorem closed_runGold (hpins : s.PinsExist) (hclosed : s.published.Closed)
    (hkeeps : LeavesClosed fns hash s run) : (runGold fns hash run s).1.published.Closed := by
  have hstep := runStep_runGold fns hash run s
  cases houtcome : (runGold fns hash run s).2 with
  | upToDate | rejected | failed =>
    rw [(published_eq_of_not_published hpins fun _ _ h ↦ by rw [houtcome] at h; cases h).2]
    exact hclosed
  | published changed built =>
    rw [houtcome] at hstep
    rcases hstep.release hpins with hfull | ⟨previous, hincrement⟩
    · rw [hfull.published_eq]
      exact closed_of_qualityRun hfull.gate
    have hkeeps := hkeeps (by rw [houtcome]; rfl) hincrement.incremental previous hincrement.active
    intro fact hfact reference hreference
    rcases eq_or_ne (run.orderIds (changesSince hash run previous.silverVersions)) []
      with hnil | hcons
    · -- all facts are those the previous release shows
      rw [hincrement.facts_kept hnil] at hfact
      have hversion := hkeeps.factVersion hnil
      rw [published_eq_rowsAt hincrement.active] at hversion
      have hperm := rowsAt_succ_commit_perm
        (hpins _ (GoldState.activeRelease_mem hincrement.active) _) hversion
      rw [← published_eq_rowsAt hincrement.active] at hperm
      exact refs_of_shown hincrement hkeeps hclosed (hperm.mem_iff.1 hfact)
        (hnil ▸ List.not_mem_nil) hreference
    · obtain ⟨hrefs, result, hmerge, hpublished⟩ := hincrement.facts_merged hcons
      rw [hpublished] at hfact
      rcases mem_of_mergeFacts hmerge hfact with hbuilt | ⟨hkept, hother⟩
      · exact refs_of_rebuilt hincrement hkeeps hcons hreference
          (hrefs fact hbuilt reference hreference)
      · exact refs_of_shown hincrement hkeeps hclosed (hkeeps.facts hcons fact hkept hother) hother
          hreference

/-! ### All runs -/

/-- **Published releases are referentially closed**, in every sequence of runs that keep the
references of the facts they do not rebuild. -/
theorem closed_runGolds (fns : SparkFunctions) (hash : BusinessHash) (runs : List GoldRun)
    (hkeeps : AllRuns fns hash (LeavesClosed fns hash) .empty runs) :
    AllRuns fns hash (fun s run ↦ (runGold fns hash run s).1.published.Closed) .empty runs := by
  let inv : GoldState → Prop := fun s ↦ s.PinsExist ∧ s.published.Closed
  have hempty : inv .empty :=
    ⟨GoldState.pinsExist_empty, fun fact hfact ↦ absurd hfact List.not_mem_nil⟩
  refine (allRuns_of_step hempty hkeeps fun s run hinv hkeeps ↦ ?_).1
  have hclosed := closed_runGold hinv.1 hinv.2 hkeeps
  exact ⟨hclosed, (runStep_runGold fns hash run s).pinsExist hinv.1, hclosed⟩

/-! ### A renamed shop, and a late rename -/

/-- The replay of the renamed shop keeps the version the order refers to. -/
theorem closed_retriedRuns : AllRuns .plain smallHash
    (fun s run ↦ (runGold .plain smallHash run s).1.published.Closed) .empty retriedRuns :=
  closed_runGolds .plain smallHash retriedRuns (by decide +kernel)

/-- The small lake with a shop that was renamed at 60, before the order. -/
def shopRenamedAt60 : SilverLake :=
  smallLake [{ rows := [smallRow 7 (smallShop 'b')]
               feed := mergeFeed [smallRow 7 (smallShop 'a')] [smallRow 7 (smallShop 'b')] }]
    [[smallHistory 't' 7 (smallShop 'b') 60]] [] []

/-- The same shop after two more events: it had the second name from 40 on already, and got a third
one at 150. -/
def shopRenamedAt40 : SilverLake :=
  smallLake [{ rows := [smallRow 7 (smallShop 'b')]
               feed := mergeFeed [smallRow 7 (smallShop 'a')] [smallRow 7 (smallShop 'b')] },
      { rows := [smallRow 7 (smallShop 'c')]
        feed := mergeFeed [smallRow 7 (smallShop 'b')] [smallRow 7 (smallShop 'c')] }]
    [[smallHistory 't' 7 (smallShop 'b') 60],
      [smallHistory 'x' 7 (smallShop 'b') 40, smallHistory 'y' 7 (smallShop 'c') 150]] [] []

/-- A first run, and an incremental run after the two events. -/
def lateRenameRuns : List GoldRun :=
  [smallRun shopRenamedAt60 false, smallRun shopRenamedAt40 false]

/-- **The fact loses its shop**: the replay moves the start of the second version from 60 to 40,
which gives it another key, and the order was not affected. -/
theorem not_closed_lateRenameRuns : ¬AllRuns .plain smallHash
    (fun s run ↦ (runGold .plain smallHash run s).1.published.Closed) .empty lateRenameRuns := by
  decide +kernel

end LakehousePipeline
