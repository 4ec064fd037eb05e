import LakehousePipeline.Control.GoldReleases
import LakehousePipeline.Gold.Releases

/-!
# Releases through the store

In `GoldState` the releases are a list and the active one is its last. In the pipeline a run hands
a candidate to the store, and what the next run or a reader gets is what the store reads back of
the property of `fact_sales`. Here runs publish through the store, and after any runs it gives the
active release (`storesActive_runsStored`).

Delta keeps the properties of a table over its commits, so between two publications the property
stays as it is.

The store and Gold count versions alike: the property is written by a commit of `fact_sales`, which
is the version a release pins for it. `GoldRelease.candidate` is what `_publish` hands over before
that commit, and `shows_candidate` says that what is read back has the versions of the release after
it. The batch id is the one text of a release that is free. It has to survive JSON and a SQL
literal, and so is asked to have characters only that both leave as they are.
-/

namespace LakehousePipeline

open GoldReleases Manifests

/-- The versions of tables under their names. -/
def namedVersions {T : Type} (name : T → Text) (tables : List T) (versions : T → ℕ) : Dict ℤ :=
  .ofList (tables.map fun t ↦ (name t, (versions t : ℤ)))

/-- The candidate of `_publish` that becomes a release: the versions of the Gold tables before the
property is written, which is one more commit of `fact_sales`. -/
def GoldRelease.candidate (release : GoldRelease) (batchId : Text) (changed : GoldTable → Bool) :
    GoldCandidateManifest where
  batchId := batchId
  changedTables := .ofList ((goldTables.filter changed).map GoldTable.tableName)
  committedVersions := namedVersions GoldTable.tableName goldTables fun t ↦
    if t = .factSales then release.goldVersions t - 1 else release.goldVersions t
  silverVersions := namedVersions SilverTable.tableName silverTables release.silverVersions
  qualityStatus := .passed

/-- The Gold layer with the properties of `fact_sales`, none before the table exists. -/
structure StoredGold where
  gold : GoldState
  properties : TableProperties

/-- Nothing has been written. -/
def StoredGold.empty : StoredGold where
  gold := .empty
  properties := none

section Run

variable (fns : SparkFunctions) (hash : BusinessHash) (json : Json.Codec) (sql : SqlReader)

/-- A run under a batch id. The first commit of `fact_sales` makes the table, and a run that
publishes hands its candidate to the store. -/
def runStored (stored : StoredGold) (batchId : Text) (run : GoldRun) : StoredGold :=
  let result := runGold fns hash run stored.gold
  let properties : TableProperties :=
    if (result.1.tables .factSales).isEmpty then stored.properties
    else some (stored.properties.getD ∅)
  match result.2, result.1.activeRelease with
  | .published changed _, some release =>
    { gold := result.1
      properties :=
        properties.map fun properties ↦
          afterPublish json sql properties (release.candidate batchId changed) }
  | _, _ => { gold := result.1, properties := properties }

/-- Runs under their batch ids, one after the other. -/
def runsStored (stored : StoredGold) (runs : List (Text × GoldRun)) : StoredGold :=
  runs.foldl (fun stored run ↦ runStored fns hash json sql stored run.1 run.2) stored

end Run

/-- A release that is read has the versions of another. -/
structure GoldReleases.StoredRelease.Shows (stored : StoredRelease) (release : GoldRelease) :
    Prop where
  silverVersions : ∀ t : SilverTable,
    stored.silverVersions[t.tableName]? = some (release.silverVersions t : ℤ)
  goldVersions : ∀ t : GoldTable,
    stored.goldVersions[t.tableName]? = some (release.goldVersions t : ℤ)

/-- **The store gives the active release**, and none before there is one. -/
structure StoredGold.StoresActive (json : Json.Codec) (isOne : Text → Bool) (stored : StoredGold) :
    Prop where
  latest_none : stored.gold.activeRelease = none →
    GoldReleases.latest json isOne stored.properties = .ok none
  latest_some : ∀ release, stored.gold.activeRelease = some release →
    ∃ read, GoldReleases.latest json isOne stored.properties = .ok (some read) ∧ read.Shows release

/-! ### What a candidate of a run is -/

/-- The version under the name of a table, if names are distinct. -/
theorem getElem?_namedVersions {T : Type} {name : T → Text} {tables : List T}
    (hnames : (tables.map name).Nodup) (versions : T → ℕ) {t : T} (ht : t ∈ tables) :
    (namedVersions name tables versions)[name t]? = some (versions t : ℤ) :=
  Dictionaries.getElem?_ofList_map hnames _ ht

/-- The names are those of the tables. -/
theorem mem_namedVersions {T : Type} {name : T → Text} {tables : List T} {versions : T → ℕ}
    {key : Text} : key ∈ namedVersions name tables versions ↔ key ∈ tables.map name := by
  rw [namedVersions, mem_ofList, List.map_map]
  rfl

/-- Versions are not negative, and names are not empty. -/
theorem validVersions_namedVersions {T : Type} {name : T → Text} {tables : List T}
    (hnames : ∀ t ∈ tables, name t ≠ []) (versions : T → ℕ) :
    ValidVersions (namedVersions name tables versions) :=
  validVersions_ofList (List.forall_mem_map.2 fun t ht ↦ ⟨hnames t ht, Int.natCast_nonneg _⟩)

/-- The names the store knows are those of the Gold tables. -/
theorem mem_goldTableNames {name : Text} :
    name ∈ goldTableNames ↔ name ∈ goldTables.map GoldTable.tableName :=
  (List.perm_insertionSort _ _).mem_iff

namespace GoldRelease

variable {release : GoldRelease} {batchId : Text} {changed : GoldTable → Bool}

/-- **The store accepts what a run hands over.** -/
theorem publishable_candidate (release : GoldRelease) (batchId : Text)
    (changed : GoldTable → Bool) : (release.candidate batchId changed).Publishable where
  silverVersions := validVersions_namedVersions (by decide) _
  committedVersions := validVersions_namedVersions (by decide) _
  goldTables := sameNames_iff.2 fun _ ↦ mem_namedVersions.trans mem_goldTableNames.symm
  changedTables := by
    refine unknownTables_eq_nil_iff.2 fun name hname ↦ mem_goldTableNames.2 ?_
    rw [candidate, Std.ExtTreeSet.mem_ofList, List.contains_iff_mem] at hname
    obtain ⟨t, ht, rfl⟩ := List.mem_map.1 hname
    exact List.mem_map.2 ⟨t, (List.mem_filter.1 ht).1, rfl⟩

/-- Only the batch id can have a character that is not printed as it is. -/
theorem printsVerbatim_candidate (h : ∀ c ∈ batchId, Verbatim c ∧ Json.Printed c) :
    (release.candidate batchId changed).PrintsVerbatim := by
  have hnames : ∀ name ∈ silverTables.map SilverTable.tableName,
      (name.all fun c ↦ Verbatim c ∧ Json.Printed c) = true := by decide
  refine ⟨h, fun name hname ↦ List.all_iff_forall_prop.1 (hnames name ?_)⟩
  exact mem_namedVersions.1 (Std.ExtTreeMap.mem_keys.1 hname)

/-- The release in the store has the versions of the run: the commit of the property is counted
again. -/
theorem shows_candidate (hfacts : 0 < release.goldVersions .factSales) :
    (release.candidate batchId changed).release.Shows release := by
  have hsilver : (silverTables.map SilverTable.tableName).Nodup := by decide
  have hgold : (goldTables.map GoldTable.tableName).Nodup := by decide
  refine ⟨fun t ↦ getElem?_namedVersions hsilver _ (mem_silverTables t), fun t ↦ ?_⟩
  have hcommitted := getElem?_namedVersions hgold (fun t ↦ if t = .factSales then
    release.goldVersions t - 1 else release.goldVersions t) (mem_goldTables t)
  rw [GoldCandidateManifest.release, candidate, Std.ExtTreeMap.getElem?_modify]
  by_cases ht : t = .factSales
  · subst ht
    rw [if_pos Std.ReflCmp.compare_self, hcommitted, if_pos rfl, Option.map_some]
    have hpred : ((release.goldVersions .factSales - 1 : ℕ) : ℤ) + 1 =
        release.goldVersions .factSales := by omega
    rw [hpred]
  · have hne : ¬compare GoldTable.factSales.tableName t.tableName = .eq := by
      intro heq
      have hsame : GoldTable.factSales.tableName = t.tableName := Std.LawfulEqCmp.eq_of_compare heq
      exact ht (List.inj_on_of_nodup_map hgold (mem_goldTables _) (mem_goldTables _) hsame).symm
    rw [if_neg hne, hcommitted, if_neg ht]

end GoldRelease

/-! ### Runs -/

section Runs

variable {fns : SparkFunctions} {hash : BusinessHash} {run : GoldRun} {s s' : GoldState}
  {outcome : GoldOutcome}

/-- A run leaves the active release, or publishes one and commits the property. -/
theorem RunStep.activeRelease_cases (h : RunStep fns hash run s s' outcome) :
    (s'.activeRelease = s.activeRelease ∧ ∀ changed built, outcome ≠ .published changed built) ∨
    ∃ changed built release, outcome = .published changed built ∧
      s'.activeRelease = some release ∧ 0 < release.goldVersions .factSales ∧
      s'.tables .factSales ≠ [] := by
  have hpublish : ∀ (s : GoldState) (silverVersions : SilverTable → ℕ)
      (changed : GoldTable → Bool) (previous : GoldTable → ℕ), ∃ release,
        (s.publish silverVersions changed previous).activeRelease = some release ∧
        0 < release.goldVersions .factSales ∧
        (s.publish silverVersions changed previous).tables .factSales ≠ [] := by
    intro s silverVersions changed previous
    refine ⟨_, GoldState.activeRelease_publish s silverVersions changed previous,
      Nat.succ_pos _, ?_⟩
    show (s.withFacts _).tables .factSales ≠ []
    rw [GoldState.withFacts_factSales]
    exact List.append_ne_nil_of_right_ne_nil _ (List.cons_ne_nil _ _)
  cases h with
  | unpublished hextends hreleases houtcome =>
    exact Or.inl ⟨congrArg List.getLast? hreleases, houtcome⟩
  | full hfull hjobs hfacts hgate =>
    obtain ⟨release, hrelease⟩ := hpublish _ _ _ _
    exact Or.inr ⟨_, _, release, rfl, hrelease⟩
  | metadataOnly hactive hincremental hnone =>
    obtain ⟨release, hrelease⟩ := hpublish _ _ _ _
    exact Or.inr ⟨_, _, release, rfl, hrelease⟩
  | incremental hactive hincremental hchanges hjobs hfacts =>
    obtain ⟨release, hrelease⟩ := hpublish _ _ _ _
    exact Or.inr ⟨_, _, release, rfl, hrelease⟩

variable {json : Json.Codec} {sql : SqlReader} {isOne : Text → Bool}

/-- Making the table does not change what is read. -/
theorem latest_ite (made : Bool) (properties : TableProperties) :
    GoldReleases.latest json isOne (if made then properties else some (properties.getD ∅)) =
      GoldReleases.latest json isOne properties := by
  cases made with
  | true => rfl
  | false =>
    cases properties with
    | none => simp [GoldReleases.latest]
    | some properties => rfl

/-- **One run keeps the store and the active release together.** -/
theorem storesActive_runStored (hjson : json.Lawful) (hkeeps : json.KeepsCharacters)
    (hsql : sql.Lawful) {stored : StoredGold} (h : stored.StoresActive json isOne)
    {batchId : Text} (hbatch : batchId ≠ []) (hprints : ∀ c ∈ batchId, Verbatim c ∧ Json.Printed c)
    (run : GoldRun) : (runStored fns hash json sql stored batchId run).StoresActive json isOne := by
  rcases (runStep_runGold fns hash run stored.gold).activeRelease_cases with
    ⟨hsame, hnot⟩ | ⟨changed, built, release, houtcome, hactive, hpos, hne⟩
  · have hrun : runStored fns hash json sql stored batchId run =
        { gold := (runGold fns hash run stored.gold).1
          properties := if ((runGold fns hash run stored.gold).1.tables .factSales).isEmpty
            then stored.properties else some (stored.properties.getD ∅) } := by
      rw [runStored]
      split
      · exact absurd ‹_› (hnot _ _)
      · rfl
    rw [hrun]
    refine ⟨fun hnone ↦ ?_, fun release hrelease ↦ ?_⟩
    · rw [latest_ite]
      exact h.latest_none (hsame.symm.trans hnone)
    · rw [latest_ite]
      exact h.latest_some release (hsame.symm.trans hrelease)
  · have hempty : ((runGold fns hash run stored.gold).1.tables .factSales).isEmpty = false := by
      simpa using hne
    have hpublishable := release.publishable_candidate batchId changed
    have hcandidate : (release.candidate batchId changed).PrintsVerbatim :=
      GoldRelease.printsVerbatim_candidate hprints
    have hrun : runStored fns hash json sql stored batchId run =
        { gold := (runGold fns hash run stored.gold).1
          properties := some ((stored.properties.getD ∅).insert goldReleaseProperty
            (json.dumps (release.candidate batchId changed).metadata.sortKeys)) } := by
      rw [runStored, houtcome, hactive, hempty]
      simp only [Bool.false_eq_true, if_false, Option.map_some,
        afterPublish_of_publishable hkeeps hsql _ hpublishable hcandidate]
    have hlatest := latest_insert hjson isOne (stored.properties.getD ∅) hpublishable
    have hid : (release.candidate batchId changed).batchId ≠ [] := hbatch
    rw [if_neg hid] at hlatest
    rw [hrun]
    refine ⟨fun hnone ↦ ?_, fun release' hrelease ↦ ?_⟩
    · cases hactive.symm.trans hnone
    · cases hactive.symm.trans hrelease
      exact ⟨_, hlatest, GoldRelease.shows_candidate hpos⟩

/-- **The store gives the active release.** After any runs under batch ids that are not empty, what
a reader gets is none before the first publication and then the release that Gold has published
last: for every table the version it pins, which exists in the log of the table. -/
theorem storesActive_runsStored (hjson : json.Lawful) (hkeeps : json.KeepsCharacters)
    (hsql : sql.Lawful) (isOne : Text → Bool) {runs : List (Text × GoldRun)}
    (hruns : ∀ run ∈ runs, run.1 ≠ [] ∧ ∀ c ∈ run.1, Verbatim c ∧ Json.Printed c) :
    (runsStored fns hash json sql .empty runs).gold =
        runGolds fns hash .empty (runs.map Prod.snd) ∧
      (runsStored fns hash json sql .empty runs).StoresActive json isOne ∧
      (runsStored fns hash json sql .empty runs).gold.PinsExist := by
  induction runs using List.reverseRecOn with
  | nil => exact ⟨rfl, ⟨fun _ ↦ rfl, fun _ h ↦ (by cases h)⟩, GoldState.pinsExist_empty⟩
  | append_singleton runs run ih =>
    obtain ⟨hinit, hlast⟩ := List.forall_mem_append.1 hruns
    obtain ⟨hbatch, hprints⟩ := hlast run List.mem_cons_self
    obtain ⟨hgold, hstores, hpins⟩ := ih hinit
    have hnext : (runsStored fns hash json sql .empty (runs ++ [run])).gold =
        (runGold fns hash run.2 (runsStored fns hash json sql .empty runs).gold).1 := by
      rw [runsStored, List.foldl_append]
      show (runStored fns hash json sql _ run.1 run.2).gold = _
      rw [runStored]
      split <;> rfl
    refine ⟨?_, ?_, ?_⟩
    · rw [hnext, hgold, List.map_append, List.map_singleton, runGolds_concat]
    · rw [runsStored, List.foldl_append]
      exact storesActive_runStored hjson hkeeps hsql hstores hbatch hprints run.2
    · rw [hnext]
      exact (runStep_runGold fns hash run.2 _).pinsExist hpins

end Runs

/-- A run that publishes, and one that is killed before it does. -/
def killedRuns : List (Text × GoldRun) :=
  [("batch-1".toList, smallRun (smallLake [] [] [] []) false),
    ("batch-2".toList,
      { smallRun (smallLake [] [] [] []) true with interruption := some .publish })]

/-- The first run wrote version 0 of the facts and the property as version 1, and after the second
the store still gives that release. -/
theorem storesActive_runsStored_killed :
    (runsStored .plain smallHash Json.compact plainReader .empty killedRuns).StoresActive
        Json.compact (fun _ ↦ false) ∧
      (runGolds .plain smallHash .empty (killedRuns.map Prod.snd)).activeRelease.map
        (fun release ↦ release.goldVersions .factSales) = some 1 ∧
      ((runGolds .plain smallHash .empty (killedRuns.map Prod.snd)).tables .factSales).length =
        3 := by
  have hfirst : "batch-1".toList ≠ [] ∧ ∀ c ∈ "batch-1".toList, Verbatim c ∧ Json.Printed c :=
    ⟨by decide, List.all_iff_forall_prop.1 (by decide)⟩
  have hsecond : "batch-2".toList ≠ [] ∧ ∀ c ∈ "batch-2".toList, Verbatim c ∧ Json.Printed c :=
    ⟨by decide, List.all_iff_forall_prop.1 (by decide)⟩
  have hruns : ∀ run ∈ killedRuns, run.1 ≠ [] ∧ ∀ c ∈ run.1, Verbatim c ∧ Json.Printed c :=
    List.forall_mem_cons.2 ⟨hfirst, List.forall_mem_singleton.2 hsecond⟩
  have hstores := @storesActive_runsStored .plain smallHash Json.compact plainReader
    Json.compact_lawful Json.compact_keepsCharacters plainReader_lawful (fun _ ↦ false) _ hruns
  exact ⟨hstores.2.1, by decide +kernel, by decide +kernel⟩

end LakehousePipeline
