import LakehousePipeline.Jobs.FullRebuild

/-!
# What the change history holds of Bronze

A Batch run of a Silver table appends the new Bronze events to the change history and then merges
them into the table. The two are separate commits. A run that is killed in between has appended a
range of Bronze versions that the table does not know of; the next run starts from the table, and
Delta skips its append only if it ends no later than the one before. If Bronze has gained events in
between, the append is not skipped, and the range of the killed run is appended a second time.

`historyOnce_of_run` says that nothing else goes wrong: as long as no append overlaps the one
before, the history holds each Batch event up to the recorded Bronze version exactly once, in every
state, after a run or in the middle of one.

## The range that has been taken

Two things say how far a history has come, and neither alone is enough. Delta keeps the version of
the last append (`historyTxn`), and the table keeps the version of its last Batch commit
(`recordedVersion`). A version has been taken if it is up to one of them (`Taken`). The invariant
`HeldTo` says that the history holds exactly the Bronze versions before some `stop`, once each, and
that those with rows are the ones that have been taken. It speaks of versions with rows because
maintenance of Bronze writes versions that have none, which nobody has to take.

## Why the condition is about the state before a run

`AppendsOnce` asks of a run that its append, if Delta does not skip it, starts after all versions
that have been taken. It reads the table, the history and Bronze as the run finds them, for each of
the branches of `run_table`, so it can be checked before the run is started. A run that is retried
with the Bronze version it had meets it (`historyOnce_of_run_retried`); one that comes after Bronze
has grown does not (`not_holdsOnce_of_append`).

## One lemma for each branch

A step that leaves what is recorded of a table (`Leaves`) keeps the invariant of it, whatever else
it does. What remains are the appends and commits of the table's own runs, and each branch of
`run_table` is an append followed by a commit, or a replacement, killed in between or not.
-/

namespace LakehousePipeline

variable {W : Type}

namespace BatchLake

section Rows

variable {world world' : BatchLake W} {t : SilverTable}

/-- A range of Bronze versions in two parts. -/
theorem bronzeRows_append (world : BatchLake W) (t : SilverTable) {start middle stop : ℕ}
    (h : start ≤ middle) (h' : middle ≤ stop) :
    world.bronzeRows t start middle ++ world.bronzeRows t middle stop =
      world.bronzeRows t start stop := by
  have hsplit : ∀ log : List (BronzeCommit ℤ (SilverColumns t)), log.drop start =
      (log.take middle).drop start ++ log.drop middle := by
    intro log
    rcases Nat.le_total middle log.length with hle | hge
    · have hdrop : (log.take middle ++ log.drop middle).drop start =
          (log.take middle).drop start ++ log.drop middle :=
        List.drop_append_of_le_length (by rw [List.length_take]; omega)
      rw [← hdrop, List.take_append_drop]
    · rw [List.take_of_length_le hge, List.drop_of_length_le hge, List.append_nil]
  have htake : ((world.bronze t).take stop).take middle = (world.bronze t).take middle := by
    rw [List.take_take, min_eq_left h']
  have hsplit := hsplit ((world.bronze t).take stop)
  rw [htake] at hsplit
  rw [bronzeRows, bronzeRows, bronzeRows, hsplit, List.flatMap_append]

/-- Versions without rows add nothing. -/
theorem bronzeRows_eq_nil {start stop : ℕ}
    (h : ∀ u, start ≤ u → u < stop → ¬HasRows (world.bronze t) u) :
    world.bronzeRows t start stop = [] := by
  refine List.flatMap_eq_nil_iff.2 fun c hc ↦ ?_
  obtain ⟨i, hi⟩ := List.mem_iff_getElem?.1 hc
  rw [List.getElem?_drop, List.getElem?_take] at hi
  obtain ⟨hlt, hversion⟩ := Option.ite_none_right_eq_some.1 hi
  by_contra hrows
  exact h (start + i) (Nat.le_add_right _ _) hlt ⟨c, hversion, hrows⟩

/-- Versions that are there keep their rows. -/
theorem bronzeRows_of_extends (hext : world.bronze t <+: world'.bronze t) {start stop : ℕ}
    (hstop : stop ≤ (world.bronze t).length) :
    world'.bronzeRows t start stop = world.bronzeRows t start stop := by
  obtain ⟨more, hmore⟩ := hext
  rw [bronzeRows, bronzeRows, ← hmore, List.take_append_of_le_length hstop]

end Rows

/-! ### What is recorded -/

section Recorded

variable (world : BatchLake W) (fns : SparkFunctions) (clean : Cleaning) (t : SilverTable)

/-- The change history of a range of Bronze versions. -/
def historyOf (start stop : ℕ) : List (HistoryRow ℤ (SilverColumns t)) :=
  changeHistory fns t.name (clean t) (world.bronzeRows t start stop)

/-- The Batch rows of a change history. -/
def batchHistory : List (HistoryRow ℤ (SilverColumns t)) :=
  (world.lakehouse.silver.history t).filter fun row ↦ row.ingestionMode = .batch

/-- The Bronze version in the metadata of the latest Batch commit. -/
def recordedVersion : Option ℕ :=
  if (world.lakehouse.silver.tables t).any SilverCommit.isBatch then
    some (world.processed t
      (TableLog.lastVersionWhere SilverCommit.isBatch (world.lakehouse.silver.tables t)))
  else none

/-- **Each Batch event up to a version is in the history once**, and otherwise there are only later
ones. -/
def HoldsOnce (version : ℕ) : Prop :=
  ∃ stop, (world.batchHistory t).Perm (world.historyOf fns clean t 0 (version + 1) ++
    world.historyOf fns clean t (version + 1) stop)

/-- The version is up to the last one Delta has seen. -/
def Appended (u : ℕ) : Prop :=
  ∃ seen ∈ world.historyTxn t, u ≤ seen

/-- The version has been appended to the history, or is up to the recorded one. -/
def Taken (u : ℕ) : Prop :=
  world.Appended t u ∨ ∃ version ∈ world.recordedVersion t, u ≤ version

/-- Delta does not skip an append that ends with the version. -/
def Appends (current : ℕ) : Prop :=
  (world.historyTxn t).all (· < current) = true

instance (current : ℕ) : Decidable (world.Appends t current) :=
  inferInstanceAs (Decidable (_ = _))

/-- **No append overlaps the ones before**, no snapshot has a row after the version that is recorded
for it, and a replacement is killed between its two writes only if the history has its rows. -/
def AppendsOnce (current : ℕ) (killed : Bool) : TableRun → Prop
  | .replace => ∀ u, HasRows (world.bronze t) u →
    (killed = true → u ≤ current → world.Taken t u) ∧
      (killed = false ∨ world.Taken t u → u ≤ current ∨ world.Appended t u)
  | .mergeSnapshot => ∀ u, HasRows (world.bronze t) u →
    if world.Appends t current then ¬world.Taken t u ∧ u ≤ current
    else world.Taken t u → u ≤ current ∨ world.Appended t u
  | .keep => True
  | .mergeChanges start => world.Appends t current →
    ∀ u, HasRows (world.bronze t) u → world.Taken t u → u < start

/-- The steps in which the history is kept right. Batch Bronze has Batch events, and what others
append to a history are not. -/
def KeepsHistory : BatchAction W → Prop
  | .extract _ found | .extractKilled found _ => ∀ t, ∀ e ∈ found t, e.isStreamingCdc = false
  | .otherHistory _ rows => ∀ row ∈ rows, row.ingestionMode ≠ .batch
  | .runTable writer t fullRebuild killed => t.hasChangeHistory = true →
    ∀ current ∈ world.bronzeVersion writer t, ∀ run ∈ world.tableRun t fullRebuild current,
      world.AppendsOnce t current killed run
  | _ => True

/-- The history of the table has the versions before `stop`, which are those that have been
taken. -/
structure HeldTo (stop : ℕ) : Prop where
  le : stop ≤ (world.bronze t).length
  perm : (world.batchHistory t).Perm (world.historyOf fns clean t 0 stop)
  appended : ∀ seen, world.historyTxn t = some seen → seen < stop
  recorded : ∀ version, world.recordedVersion t = some version → version < stop
  taken : ∀ u < stop, HasRows (world.bronze t) u → world.Taken t u

/-- Batch Bronze has Batch events. -/
def BatchEvents : Prop :=
  ∀ c ∈ world.bronze t, ∀ e ∈ c.rows, e.isStreamingCdc = false

/-- What holds of the history of a table. -/
structure HistoryInv : Prop where
  batch : world.BatchEvents t
  held : ∃ stop, world.HeldTo fns clean t stop

end Recorded

variable {world world' : BatchLake W} {fns : SparkFunctions} {hash : BusinessHash}
  {clean : Cleaning} {writer : W} {t : SilverTable} {stop : ℕ}

variable (world fns clean t) in
/-- The history of a range is that of its parts. -/
theorem historyOf_append {start middle stop : ℕ} (h : start ≤ middle) (h' : middle ≤ stop) :
    world.historyOf fns clean t start middle ++ world.historyOf fns clean t middle stop =
      world.historyOf fns clean t start stop := by
  rw [historyOf, historyOf, historyOf, ← bronzeRows_append world t h h', changeHistory,
    changeHistory, changeHistory, List.map_append]

/-- A range without rows has none. -/
theorem historyOf_eq_nil {start stop : ℕ}
    (h : ∀ u, start ≤ u → u < stop → ¬HasRows (world.bronze t) u) :
    world.historyOf fns clean t start stop = [] := by
  rw [historyOf, bronzeRows_eq_nil h]
  rfl

/-- The history of a range stays when Bronze grows. -/
theorem historyOf_of_extends (hext : world.bronze t <+: world'.bronze t) {start stop : ℕ}
    (hstop : stop ≤ (world.bronze t).length) :
    world'.historyOf fns clean t start stop = world.historyOf fns clean t start stop := by
  rw [historyOf, historyOf, bronzeRows_of_extends hext hstop]

/-- The versions before the recorded one, and the others. -/
theorem HeldTo.holdsOnce (h : world.HeldTo fns clean t stop) {version : ℕ}
    (hrecorded : world.recordedVersion t = some version) : world.HoldsOnce fns clean t version := by
  have hlt := h.recorded version hrecorded
  exact ⟨stop, by rw [historyOf_append world fns clean t (Nat.zero_le _) hlt]; exact h.perm⟩

/-- More versions are held if none of them has rows that have not been taken. -/
theorem HeldTo.widen (h : world.HeldTo fns clean t stop) {stop' : ℕ} (hle : stop ≤ stop')
    (hlen : stop' ≤ (world.bronze t).length)
    (htaken : ∀ u < stop', HasRows (world.bronze t) u → world.Taken t u) :
    world.HeldTo fns clean t stop' where
  le := hlen
  perm := by
    -- what has been taken comes before `stop`
    have hnil : world.historyOf fns clean t stop stop' = [] := by
      refine historyOf_eq_nil fun u hge hlt hrows ↦ ?_
      rcases htaken u hlt hrows with ⟨seen, hseen, hu⟩ | ⟨version, hversion, hu⟩
      · have := h.appended seen hseen
        omega
      · have := h.recorded version hversion
        omega
    rw [← historyOf_append world fns clean t (Nat.zero_le _) hle, hnil, List.append_nil]
    exact h.perm
  appended seen hseen := (h.appended seen hseen).trans_le hle
  recorded version hversion := (h.recorded version hversion).trans_le hle
  taken := htaken

/-! ### What leaves the history -/

/-- The step changes nothing of what is recorded of a table. -/
structure Leaves (world world' : BatchLake W) (t : SilverTable) : Prop where
  bronze : world.bronze t <+: world'.bronze t
  batch : world.BatchEvents t → world'.BatchEvents t
  batchHistory : world'.batchHistory t = world.batchHistory t
  historyTxn : world'.historyTxn t = world.historyTxn t
  recordedVersion : world'.recordedVersion t = world.recordedVersion t

theorem Leaves.refl (world : BatchLake W) (t : SilverTable) : world.Leaves world t :=
  ⟨List.prefix_refl _, id, rfl, rfl, rfl⟩

theorem Leaves.trans {world'' : BatchLake W} (h : world.Leaves world' t)
    (h' : world'.Leaves world'' t) : world.Leaves world'' t where
  bronze := h.bronze.trans h'.bronze
  batch hbatch := h'.batch (h.batch hbatch)
  batchHistory := h'.batchHistory.trans h.batchHistory
  historyTxn := h'.historyTxn.trans h.historyTxn
  recordedVersion := h'.recordedVersion.trans h.recordedVersion

/-- Silver leaves the history of a table of which it changes nothing. -/
theorem leaves_of_eq (hbronze : world'.bronze = world.bronze)
    (hhistory : world'.lakehouse.silver.history t = world.lakehouse.silver.history t)
    (htxn : world'.historyTxn t = world.historyTxn t)
    (htables : world'.lakehouse.silver.tables t = world.lakehouse.silver.tables t)
    (hprocessed : world'.processed t = world.processed t) : world.Leaves world' t where
  bronze := hbronze ▸ List.prefix_refl _
  batch hbatch := by rwa [BatchEvents, hbronze]
  batchHistory := by rw [batchHistory, batchHistory, hhistory]
  historyTxn := htxn
  recordedVersion := by rw [recordedVersion, recordedVersion, htables, hprocessed]

/-- What has been taken is read from what the step leaves. -/
theorem Leaves.taken_iff (h : world.Leaves world' t) (u : ℕ) :
    world'.Taken t u ↔ world.Taken t u := by
  rw [Taken, Taken, Appended, Appended, h.historyTxn, h.recordedVersion]

/-- A step that changes nothing recorded of a table keeps what is held of it. -/
theorem HeldTo.of_leaves (h : world.HeldTo fns clean t stop) (hleaves : world.Leaves world' t) :
    world'.HeldTo fns clean t stop where
  le := h.le.trans hleaves.bronze.length_le
  perm := by
    rw [hleaves.batchHistory, historyOf_of_extends hleaves.bronze h.le]
    exact h.perm
  appended seen hseen := h.appended seen (hleaves.historyTxn ▸ hseen)
  recorded version hversion := h.recorded version (hleaves.recordedVersion ▸ hversion)
  taken u hu hrows := (hleaves.taken_iff u).2
    (h.taken u hu (hrows.of_extends hleaves.bronze (hu.trans_le h.le)))

/-- And so the invariant of the table. -/
theorem HistoryInv.of_leaves (h : world.HistoryInv fns clean t) (hleaves : world.Leaves world' t) :
    world'.HistoryInv fns clean t := by
  obtain ⟨stop, hheld⟩ := h.held
  exact ⟨hleaves.batch h.batch, stop, hheld.of_leaves hleaves⟩

/-! ### Appends and commits -/

/-- The change history of Batch Bronze is of Batch events. -/
theorem filter_historyOf (hbatch : world.BatchEvents t) (start stop : ℕ) :
    (world.historyOf fns clean t start stop).filter (fun row ↦ row.ingestionMode = .batch) =
      world.historyOf fns clean t start stop := by
  refine List.filter_eq_self.2 fun row hrow ↦ ?_
  obtain ⟨e, he, rfl⟩ := List.mem_map.1 hrow
  obtain ⟨c, hc, he⟩ := List.mem_flatMap.1 he
  have hcdc := hbatch c (List.mem_of_mem_take (List.mem_of_mem_drop hc)) e he
  show decide (e.ingestionMode = .batch) = true
  rw [BronzeEvent.ingestionMode, hcdc]
  rfl

variable (world fns clean t) in
/-- What an append that Delta does not skip leaves. -/
theorem appendHistory_of_appends (hhas : t.hasChangeHistory = true) {current : ℕ}
    (happends : world.Appends t current) (hbatch : world.BatchEvents t) (start stop : ℕ) :
    (world.appendHistory fns clean t current (world.bronzeRows t start stop)).batchHistory t =
        world.batchHistory t ++ world.historyOf fns clean t start stop ∧
      (world.appendHistory fns clean t current (world.bronzeRows t start stop)).historyTxn t =
        some current ∧
      (world.appendHistory fns clean t current (world.bronzeRows t start stop)).recordedVersion t =
        world.recordedVersion t := by
  rw [BatchLake.appendHistory, if_pos (Bool.and_eq_true_iff.2 ⟨hhas, happends⟩)]
  refine ⟨?_, Function.update_self .., rfl⟩
  show ((Function.update world.lakehouse.silver.histories t _ t).flatten).filter _ = _
  rw [Function.update_self, List.flatten_append, List.flatten_singleton, List.filter_append]
  exact congrArg (world.batchHistory t ++ ·) (filter_historyOf hbatch start stop)

/-- **An append of versions that have not been taken** goes on with the history. -/
theorem HeldTo.appendHistory (h : world.HeldTo fns clean t stop) (hhas : t.hasChangeHistory = true)
    (hbatch : world.BatchEvents t) {current start stop' : ℕ} (happends : world.Appends t current)
    (hstart : start ≤ stop) (hrange : start ≤ stop') (hlen : stop' ≤ (world.bronze t).length)
    (hcurrent : current < stop')
    (hrecorded : ∀ version, world.recordedVersion t = some version → version < stop')
    (hnew : ∀ u, HasRows (world.bronze t) u → world.Taken t u → u < start)
    (hlast : ∀ u < stop', HasRows (world.bronze t) u → u ≤ current) :
    (world.appendHistory fns clean t current (world.bronzeRows t start stop')).HeldTo fns clean t
      stop' := by
  obtain ⟨hhistory, htxn, hversion⟩ :=
    appendHistory_of_appends world fns clean t hhas happends hbatch start stop'
  obtain ⟨hbronze, -, -⟩ :=
    appendHistory_spec world fns clean t current (world.bronzeRows t start stop')
  set appended := world.appendHistory fns clean t current (world.bronzeRows t start stop')
  -- the history has no rows from `start` on
  have hnil : world.historyOf fns clean t start stop = [] := historyOf_eq_nil fun u hge hlt hu ↦
    absurd (hnew u hu (h.taken u hlt hu)) (Nat.not_lt.2 hge)
  have hold : (world.batchHistory t).Perm (world.historyOf fns clean t 0 start) := by
    have hperm := h.perm
    rwa [← historyOf_append world fns clean t (Nat.zero_le _) hstart, hnil,
      List.append_nil] at hperm
  refine ⟨by rw [hbronze]; exact hlen, ?_, fun seen hseen ↦ ?_, fun version hv ↦ ?_,
    fun u hu hrow ↦ Or.inl ⟨current, htxn, ?_⟩⟩
  · have hsame : world.bronze t <+: appended.bronze t := by rw [hbronze]
    rw [hhistory, historyOf_of_extends hsame hlen,
      ← historyOf_append world fns clean t (Nat.zero_le _) hrange]
    exact hold.append_right _
  · obtain rfl := Option.some.inj (htxn.symm.trans hseen)
    exact hcurrent
  · exact hrecorded version (hversion ▸ hv)
  · rw [hbronze] at hrow
    exact hlast u hu hrow

/-- A commit of a Batch run records its version. -/
theorem recordedVersion_commit {c : SilverCommit (SilverColumns t)}
    (htables : world'.lakehouse.silver.tables t = world.lakehouse.silver.tables t ++ [c])
    (hc : c.isBatch = true) {current : ℕ}
    (hprocessed : world'.processed t (world.lakehouse.silver.tables t).length = current) :
    world'.recordedVersion t = some current := by
  have hany : (world.lakehouse.silver.tables t ++ [c]).any SilverCommit.isBatch = true := by
    rw [List.any_append, List.any_cons, hc, Bool.true_or, Bool.or_true]
  rw [recordedVersion, htables, if_pos hany, TableLog.lastVersionWhere_concat_of_pos hc, hprocessed]

/-- **A commit of a version that is held** leaves the history right if it gives nothing up. -/
theorem HeldTo.commit (h : world.HeldTo fns clean t stop)
    (hbronze : world'.bronze t = world.bronze t)
    (hhistory : world'.batchHistory t = world.batchHistory t)
    (htxn : world'.historyTxn t = world.historyTxn t) {current : ℕ}
    (hrecorded : world'.recordedVersion t = some current) (hcurrent : current < stop)
    (hkept : ∀ u, HasRows (world.bronze t) u → world.Taken t u →
      u ≤ current ∨ world.Appended t u) : world'.HeldTo fns clean t stop where
  le := by rw [hbronze]; exact h.le
  perm := by
    rw [hhistory, historyOf_of_extends (hbronze ▸ List.prefix_refl _) h.le]
    exact h.perm
  appended seen hseen := h.appended seen (htxn ▸ hseen)
  recorded version hversion := by
    obtain rfl := Option.some.inj (hrecorded.symm.trans hversion)
    exact hcurrent
  taken u hu hrows := by
    rw [hbronze] at hrows
    rcases hkept u hrows (h.taken u hu hrows) with hle | happended
    · exact Or.inr ⟨current, hrecorded, hle⟩
    · refine Or.inl ?_
      rw [Appended, htxn]
      exact happended

/-! ### The branches of a Batch run -/

variable [DecidableEq W]

/-- **A merge keeps the history right**, killed or not. -/
theorem HistoryInv.mergeRows (h : world.HistoryInv fns clean t) (hhas : t.hasChangeHistory = true)
    {current start stop' : ℕ} {killed : Bool} (hrange : start ≤ current + 1)
    (hcurrent : current < stop') (hlen : stop' ≤ (world.bronze t).length)
    (hstart : ∀ stop, world.HeldTo fns clean t stop → start ≤ stop)
    (hnew : world.Appends t current → ∀ u, HasRows (world.bronze t) u →
      (world.Taken t u → u < start) ∧ (u < stop' → u ≤ current))
    (hrecorded : world.Appends t current →
      ∀ version, world.recordedVersion t = some version → version < stop')
    (hkept : ¬world.Appends t current → ∀ u, HasRows (world.bronze t) u → world.Taken t u →
      u ≤ current ∨ world.Appended t u)
    (hstep : world.mergeRows fns hash clean writer t current start stop' killed = some world') :
    world'.HistoryInv fns clean t := by
  rw [BatchLake.mergeRows] at hstep
  dsimp only at hstep
  obtain ⟨hbronze, -, -⟩ :=
    appendHistory_spec world fns clean t current (world.bronzeRows t start stop')
  have htables := (keeps_appendHistory world fns clean t current (world.bronzeRows t start stop')).2
  obtain ⟨stop, hheld⟩ := h.held
  -- after the append, which Delta may skip, the version is held
  have happended : ∃ stop, (world.appendHistory fns clean t current
        (world.bronzeRows t start stop')).HeldTo fns clean t stop ∧ current < stop ∧
      ∀ u, HasRows (world.bronze t) u → (world.appendHistory fns clean t current
        (world.bronzeRows t start stop')).Taken t u → u ≤ current ∨ (world.appendHistory fns clean t
          current (world.bronzeRows t start stop')).Appended t u := by
    rcases Decidable.em (world.Appends t current) with happends | hskips
    · obtain ⟨-, -, hversion⟩ :=
        appendHistory_of_appends world fns clean t hhas happends h.batch start stop'
      refine ⟨stop', hheld.appendHistory hhas h.batch happends (hstart stop hheld) (by omega) hlen
        hcurrent (hrecorded happends) (fun u hu ↦ (hnew happends u hu).1)
        (fun u hlt hu ↦ (hnew happends u hu).2 hlt), hcurrent, fun u hu htaken ↦ ?_⟩
      rcases htaken with hseen | ⟨version, hrecords, hle⟩
      · exact Or.inr hseen
      · have := (hnew happends u hu).1 (Or.inr ⟨version, hversion ▸ hrecords, hle⟩)
        exact Or.inl (by omega)
    · have hsame : world.appendHistory fns clean t current (world.bronzeRows t start stop') =
          world := by
        rw [BatchLake.appendHistory, if_neg fun hand ↦ hskips (Bool.and_eq_true_iff.1 hand).2]
      rw [hsame]
      refine ⟨stop, hheld, ?_, hkept hskips⟩
      rw [Appends] at hskips
      rcases hseen : world.historyTxn t with - | seen
      · rw [hseen] at hskips
        exact absurd rfl hskips
      · rw [hseen, Option.all_some, decide_eq_true_eq] at hskips
        have := hheld.appended seen hseen
        omega
  set appended := world.appendHistory fns clean t current (world.bronzeRows t start stop')
  obtain ⟨stop, hheld, hlt, hkept⟩ := happended
  have hbatch : appended.BatchEvents t := by
    rw [BatchEvents, hbronze]
    exact h.batch
  split at hstep
  · obtain rfl := Option.some.inj hstep
    exact ⟨hbatch, stop, hheld⟩
  · obtain ⟨rows, -, hcommit⟩ := Option.bind_eq_some_iff.1 hstep
    obtain ⟨lakehouse, hlakehouse, rfl⟩ := Option.map_eq_some_iff.1 hcommit
    obtain ⟨hcommits, -⟩ := tables_of_isCommitOf (Or.inr (Or.inl rfl)) hlakehouse
    have hcommit := congrFun hcommits t
    rw [Function.update_self] at hcommit
    refine ⟨hbatch, stop, hheld.commit rfl ?_ rfl (recordedVersion_commit hcommit rfl ?_) hlt
      (by rwa [hbronze])⟩
    · rw [batchHistory, batchHistory, SilverLake.history, histories_mergeTable hlakehouse]
      rfl
    · show Function.update appended.processed t _ t _ = current
      rw [Function.update_self, Function.update_self]

/-- **A replacement has the history right.** One that is killed before it writes the history must
find it right. -/
theorem HistoryInv.replaceRows (h : world.HistoryInv fns clean t) (hhas : t.hasChangeHistory = true)
    {current : ℕ} {killed : Bool} (hcurrent : current < (world.bronze t).length)
    (honce : world.AppendsOnce t current killed .replace)
    (hstep : world.replaceRows fns hash clean writer t current killed = some world') :
    world'.HistoryInv fns clean t := by
  obtain ⟨hreplaced, hleft⟩ := history_replaceRows hstep
  obtain ⟨lakehouse, hlakehouse, rfl⟩ := Option.map_eq_some_iff.1 hstep
  have htables :=
    congrFun (tables_of_isCommitOf (isCommitOf_replacement writer t _ _ killed) hlakehouse).1 t
  rw [Function.update_self] at htables
  set world' : BatchLake W := { world with
    lakehouse := lakehouse
    processed := Function.update world.processed t
      (Function.update (world.processed t) (world.lakehouse.silver.tables t).length current)
    merged := Function.update world.merged t
      (world.merged t ++ List.range' 0 ((world.bronze t).length - 0)) }
  have hrecords : world'.recordedVersion t = some current := by
    refine recordedVersion_commit htables rfl ?_
    show Function.update world.processed t _ t _ = current
    rw [Function.update_self, Function.update_self]
  obtain ⟨stop, hheld⟩ := h.held
  refine ⟨h.batch, ?_⟩
  rcases killed with - | -
  · refine ⟨(world.bronze t).length, le_rfl, ?_, fun seen hseen ↦ ?_, fun version hversion ↦ ?_,
      fun u _ hrows ↦ ?_⟩
    · rw [batchHistory, hreplaced ⟨rfl, hhas⟩]
      exact List.Perm.of_eq (filter_historyOf h.batch 0 _)
    · exact (hheld.appended seen hseen).trans_le hheld.le
    · obtain rfl := Option.some.inj (hrecords.symm.trans hversion)
      exact hcurrent
    · rcases (honce u hrows).2 (Or.inl rfl) with hle | hseen
      · exact Or.inr ⟨current, hrecords, hle⟩
      · exact Or.inl hseen
  · have hwide : world.HeldTo fns clean t (max stop (current + 1)) := by
      refine hheld.widen (le_max_left _ _) (max_le hheld.le hcurrent) fun u hu hrows ↦ ?_
      rcases lt_max_iff.1 hu with hbefore | hle
      · exact hheld.taken u hbefore hrows
      · exact (honce u hrows).1 rfl (Nat.lt_succ_iff.1 hle)
    refine ⟨_, hwide.commit rfl ?_ rfl hrecords (lt_max_of_lt_right (Nat.lt_succ_self _))
      fun u hrows htaken ↦ (honce u hrows).2 (Or.inr htaken)⟩
    rw [batchHistory, batchHistory, hleft t (Or.inr (Or.inl rfl))]

omit [DecidableEq W] in
/-- The changes are read from the version after the recorded one. -/
theorem tableRun_eq_mergeChanges {fullRebuild : Bool} {current start : ℕ}
    (hrun : world.tableRun t fullRebuild current = some (.mergeChanges start)) :
    ∃ previous, world.recordedVersion t = some previous ∧ start = previous + 1 ∧
      previous < current := by
  rw [tableRun] at hrun
  dsimp only at hrun
  split at hrun
  · cases hrun
  · split at hrun
    · cases hrun
    · rename_i version hversion
      obtain ⟨hlast, c, hc, hbatch⟩ := TableLog.recentVersionWhere_spec hversion
      obtain ⟨hge, hrun⟩ := Option.ite_none_left_eq_some.1 hrun
      split at hrun
      · cases hrun
      · rename_i hne
        have hany : (world.lakehouse.silver.tables t).any SilverCommit.isBatch = true :=
          List.any_eq_true.2 ⟨c, List.mem_of_getElem? hc, hbatch⟩
        refine ⟨world.processed t version, ?_, ?_, by omega⟩
        · rw [recordedVersion, if_pos hany, ← hlast]
        · exact (TableRun.mergeChanges.inj (Option.some.inj hrun)).symm

/-- **A run of the table keeps its history right** if it appends once. -/
theorem HistoryInv.runTable (h : world.HistoryInv fns clean t) (hinv : world.Inv)
    (hhas : t.hasChangeHistory = true) {fullRebuild killed : Bool}
    (hok : world.KeepsHistory (.runTable writer t fullRebuild killed))
    (hstep : world.runTable fns hash clean writer t fullRebuild killed = some world') :
    world'.HistoryInv fns clean t := by
  obtain ⟨current, hcurrent, hstep⟩ := Option.bind_eq_some_iff.1 hstep
  obtain ⟨run, hrun, hstep⟩ := Option.bind_eq_some_iff.1 hstep
  have hlt := bronzeVersion_lt hinv hcurrent
  have honce := hok hhas current hcurrent run hrun
  -- the version recorded in Silver is one that Bronze has
  have hbehind : ∀ version, world.recordedVersion t = some version →
      version < (world.bronze t).length := by
    obtain ⟨stop, hheld⟩ := h.held
    exact fun version hversion ↦ (hheld.recorded version hversion).trans_le hheld.le
  cases run with
  | replace => exact h.replaceRows hhas hlt honce hstep
  | mergeSnapshot =>
    refine h.mergeRows hhas (Nat.zero_le _) hlt le_rfl (fun _ _ ↦ Nat.zero_le _)
      (fun happends u hu ↦ ?_) (fun _ ↦ hbehind) (fun hskips u hu ↦ ?_) hstep
    · have hrow := honce u hu
      rw [if_pos happends] at hrow
      exact ⟨fun htaken ↦ absurd htaken hrow.1, fun _ ↦ hrow.2⟩
    · have hrow := honce u hu
      rwa [if_neg hskips] at hrow
  | mergeChanges start =>
    obtain ⟨previous, hprevious, rfl, hbefore⟩ := tableRun_eq_mergeChanges hrun
    have hrecorded : ∀ version, world.recordedVersion t = some version → version = previous :=
      fun version hversion ↦ Option.some.inj (hversion.symm.trans hprevious)
    refine h.mergeRows hhas (by omega) (Nat.lt_succ_self _) hlt
      (fun stop hheld ↦ hheld.recorded previous hprevious)
      (fun happends u hu ↦ ⟨honce happends u hu, Nat.lt_succ_iff.1⟩) (fun _ version hversion ↦ ?_)
      (fun _ u _ htaken ↦ ?_) hstep
    · have := hrecorded version hversion
      omega
    · rcases htaken with hseen | ⟨version, hversion, hle⟩
      · exact Or.inr hseen
      · have := hrecorded version hversion
        exact Or.inl (by omega)
  | keep =>
    rcases killed with - | -
    · obtain ⟨lakehouse, hlakehouse, rfl⟩ := exists_of_inLakehouse hstep
      obtain rfl := Option.some.inj hlakehouse
      exact h.of_leaves (leaves_of_eq rfl rfl rfl rfl rfl)
    · obtain rfl := Option.some.inj hstep
      exact h

/-! ### The other tables -/

variable {t' : SilverTable}

omit [DecidableEq W] in
variable (world fns clean) in
/-- An append to another history. -/
theorem leaves_appendHistory (hne : t ≠ t') (current : ℕ)
    (events : List (BronzeEvent ℤ (SilverColumns t'))) :
    world.Leaves (world.appendHistory fns clean t' current events) t := by
  rw [BatchLake.appendHistory]
  split
  · refine leaves_of_eq rfl ?_ (Function.update_of_ne hne _ _) rfl rfl
    show (Function.update world.lakehouse.silver.histories t' _ t).flatten = _
    rw [Function.update_of_ne hne]
    rfl
  · exact Leaves.refl world t

/-- A commit of another table. -/
theorem leaves_commitBatch (hne : t ≠ t') {current start stop : ℕ} {action : LakehouseAction W}
    {c : SilverCommit (SilverColumns t')} (haction : IsCommitOf writer t' c action)
    (hstep : world.commitBatch fns hash t' current start stop action = some world') :
    world.Leaves world' t := by
  obtain ⟨lakehouse, hlakehouse, rfl⟩ := Option.map_eq_some_iff.1 hstep
  have htables := congrFun (tables_of_isCommitOf haction hlakehouse).1 t
  rw [Function.update_of_ne hne] at htables
  refine leaves_of_eq rfl ?_ rfl htables (Function.update_of_ne hne _ _)
  rcases haction with rfl | rfl | ⟨rows, rfl⟩
  · obtain rfl := Option.some.inj hlakehouse
    rfl
  · rw [SilverLake.history, SilverLake.history, histories_mergeTable hlakehouse]
  · exact (histories_replaceTable hlakehouse).2 t hne

/-- A run of a table leaves the histories of the others. -/
theorem leaves_runTable (hne : t ≠ t') {fullRebuild killed : Bool}
    (hstep : world.runTable fns hash clean writer t' fullRebuild killed = some world') :
    world.Leaves world' t := by
  obtain ⟨current, -, hstep⟩ := Option.bind_eq_some_iff.1 hstep
  obtain ⟨run, -, hstep⟩ := Option.bind_eq_some_iff.1 hstep
  have hmerge : ∀ start stop,
      world.mergeRows fns hash clean writer t' current start stop killed = some world' →
        world.Leaves world' t := by
    intro start stop hstep
    rw [BatchLake.mergeRows] at hstep
    dsimp only at hstep
    have happended :=
      leaves_appendHistory world fns clean hne current (world.bronzeRows t' start stop)
    split at hstep
    · obtain rfl := Option.some.inj hstep
      exact happended
    · obtain ⟨rows, -, hcommit⟩ := Option.bind_eq_some_iff.1 hstep
      exact happended.trans (leaves_commitBatch hne (Or.inr (Or.inl rfl)) hcommit)
  cases run with
  | replace => exact leaves_commitBatch hne (isCommitOf_replacement writer t' _ _ killed) hstep
  | mergeSnapshot => exact hmerge _ _ hstep
  | mergeChanges start => exact hmerge _ _ hstep
  | keep =>
    rcases killed with - | -
    · obtain ⟨lakehouse, hlakehouse, rfl⟩ := exists_of_inLakehouse hstep
      obtain rfl := Option.some.inj hlakehouse
      exact leaves_of_eq rfl rfl rfl rfl rfl
    · obtain rfl := Option.some.inj hstep
      exact Leaves.refl world t

/-! ### Every step -/

omit [DecidableEq W] in
/-- An extraction brings Batch events. -/
theorem batchEvents_extracted (hbatch : world.BatchEvents t)
    {found : (t : SilverTable) → List (BronzeEvent ℤ (SilverColumns t))}
    (hfound : ∀ e ∈ found t, e.isStreamingCdc = false) :
    ∀ c ∈ (world.extracted found t).1, ∀ e ∈ c.rows, e.isStreamingCdc = false := by
  rw [extracted]
  rcases hextract : extractTable (world.bronze t) (found t) with - | ⟨log, result⟩
  · exact hbatch
  rw [Option.getD_some]
  rw [extractTable] at hextract
  split at hextract
  · obtain ⟨rfl, -⟩ := Prod.mk.inj (Option.some.inj hextract)
    intro c hc
    rw [List.mem_singleton.1 hc]
    exact hfound
  · obtain ⟨processed, -, heq⟩ := Option.map_eq_some_iff.1 hextract
    split at heq
    · obtain ⟨rfl, -⟩ := Prod.mk.inj heq
      exact hbatch
    · obtain ⟨rfl, -⟩ := Prod.mk.inj heq
      intro c hc
      rcases List.mem_append.1 hc with hc | hc
      · exact hbatch c hc
      · rw [List.mem_singleton.1 hc]
        exact hfound

omit [DecidableEq W] in
/-- New commits in Bronze leave the histories. -/
theorem leaves_of_bronze {bronze : (t : SilverTable) → List (BronzeCommit ℤ (SilverColumns t))}
    {results : W → Option (SilverTable → BronzeTableResult)} {reached : W → SilverTable → ℕ}
    (hbronze : world.bronze t <+: bronze t)
    (hbatch : world.BatchEvents t → ∀ c ∈ bronze t, ∀ e ∈ c.rows, e.isStreamingCdc = false) :
    world.Leaves { world with bronze := bronze, results := results, reached := reached } t :=
  ⟨hbronze, hbatch, rfl, rfl, rfl⟩

omit [DecidableEq W] in
/-- What others append is not of Batch events, and what they commit is no Batch commit. -/
theorem leaves_of_other {lakehouse : Lakehouse W}
    (hhistory : (lakehouse.silver.history t).filter (fun row ↦ row.ingestionMode = .batch) =
      world.batchHistory t)
    (htables : lakehouse.silver.tables t = world.lakehouse.silver.tables t ∨
      ∃ c, c.isBatch = false ∧
        lakehouse.silver.tables t = world.lakehouse.silver.tables t ++ [c]) :
    world.Leaves { world with lakehouse := lakehouse } t := by
  refine ⟨List.prefix_refl _, id, hhistory, rfl, ?_⟩
  show (if (lakehouse.silver.tables t).any SilverCommit.isBatch then some (world.processed t
    (TableLog.lastVersionWhere SilverCommit.isBatch (lakehouse.silver.tables t))) else none) = _
  rcases htables with hsame | ⟨c, hc, hadded⟩
  · rw [hsame]
    rfl
  · rw [hadded, List.any_append, List.any_cons, hc, List.any_nil, Bool.or_false, Bool.or_false,
      TableLog.lastVersionWhere_concat_of_neg hc]
    rfl

/-- **The step lemma.** -/
theorem HistoryInv.step (h : world.HistoryInv fns clean t) (hinv : world.Inv)
    (hhas : t.hasChangeHistory = true) {action : BatchAction W} (hok : world.KeepsHistory action)
    (hstep : world.step fns hash clean action = some world') : world'.HistoryInv fns clean t := by
  cases action with
  | extract writer found =>
    obtain ⟨-, heq⟩ := Option.ite_none_right_eq_some.1 hstep
    obtain rfl := Option.some.inj heq
    exact h.of_leaves (leaves_of_bronze (extracted_spec hinv found t).1
      fun hbatch ↦ batchEvents_extracted hbatch (hok t))
  | extractKilled found done =>
    obtain rfl := Option.some.inj hstep
    refine h.of_leaves (leaves_of_bronze ?_ fun hbatch ↦ ?_)
    · split
      · -- killed after the append: Bronze has grown, no manifest tells of it
        exact (extracted_spec hinv found t).1
      · exact List.prefix_refl _
    · split
      · exact batchEvents_extracted hbatch (hok t)
      · exact hbatch
  | optimizeBronze t' =>
    obtain ⟨-, heq⟩ := Option.ite_none_left_eq_some.1 hstep
    obtain rfl := Option.some.inj heq
    refine h.of_leaves ?_
    rcases eq_or_ne t t' with rfl | hne
    · refine leaves_of_bronze ?_ fun hbatch ↦ ?_
      · rw [Function.update_self]
        exact List.prefix_append _ _
      · rw [Function.update_self]
        -- an OPTIMIZE commit holds no row
        intro c hc
        rcases List.mem_append.1 hc with hc | hc
        · exact hbatch c hc
        · rw [List.mem_singleton.1 hc]
          exact fun e he ↦ absurd he List.not_mem_nil
    · refine leaves_of_bronze ?_ fun hbatch ↦ ?_
      · rw [Function.update_of_ne hne]
      · rw [Function.update_of_ne hne]
        exact hbatch
  | runTable writer t' fullRebuild killed =>
    rcases eq_or_ne t t' with rfl | hne
    · exact h.runTable hinv hhas hok hstep
    · exact h.of_leaves (leaves_runTable hne hstep)
  | otherCommit t' c =>
    obtain ⟨hc, hstep⟩ := Option.ite_none_left_eq_some.1 hstep
    obtain ⟨lakehouse, hlakehouse, rfl⟩ := exists_of_inLakehouse hstep
    obtain rfl := Option.some.inj hlakehouse
    refine h.of_leaves (leaves_of_other rfl ?_)
    show Function.update world.lakehouse.silver.tables t' _ t = _ ∨
      ∃ c, _ ∧ Function.update world.lakehouse.silver.tables t' _ t = _
    rcases eq_or_ne t t' with rfl | hne
    · rw [Function.update_self]
      exact Or.inr ⟨c, Bool.eq_false_iff.2 hc, rfl⟩
    · rw [Function.update_of_ne hne]
      exact Or.inl rfl
  | otherHistory t' rows =>
    obtain ⟨lakehouse, hlakehouse, rfl⟩ := exists_of_inLakehouse hstep
    obtain rfl := Option.some.inj hlakehouse
    refine h.of_leaves (leaves_of_other ?_ (Or.inl rfl))
    show ((Function.update world.lakehouse.silver.histories t' _ t).flatten).filter _ = _
    rcases eq_or_ne t t' with rfl | hne
    · -- what CDC appends is no row of a Batch run
      have hnone : rows.filter (fun row ↦ row.ingestionMode = .batch) = [] :=
        List.filter_eq_nil_iff.2 fun row hrow ↦ by simpa using hok row hrow
      rw [Function.update_self, List.flatten_append, List.flatten_singleton,
        List.filter_append, hnone, List.append_nil]
      rfl
    · rw [Function.update_of_ne hne]
      rfl
  | skip writer =>
    obtain ⟨-, heq⟩ := Option.ite_none_right_eq_some.1 hstep
    obtain rfl := Option.some.inj heq
    exact h
  | goldStage stage =>
    obtain ⟨lakehouse, hlakehouse, rfl⟩ := exists_of_inLakehouse hstep
    obtain ⟨run, -, rfl⟩ := Option.map_eq_some_iff.1 hlakehouse
    exact h.of_leaves (leaves_of_eq rfl rfl rfl rfl rfl)

omit [DecidableEq W] in
variable (fns clean t) in
/-- An empty history holds nothing, and nothing has been taken. -/
theorem historyInv_empty : (empty : BatchLake W).HistoryInv fns clean t where
  batch := fun _ hc ↦ absurd hc List.not_mem_nil
  held := ⟨0, le_rfl, .nil, fun _ h ↦ (Option.some_ne_none _ h.symm).elim,
    fun _ h ↦ (Option.some_ne_none _ h.symm).elim, fun _ hu _ ↦ absurd hu (Nat.not_lt_zero _)⟩

/-- **The change history holds each Batch event once.** In every state that any interleaving of
batch runs, killed or not, CDC writers and maintenance leads to, it has each event of Batch Bronze
up to the recorded version exactly once, as long as each step finds the history such that its append
does not overlap the ones before. -/
theorem historyOnce_of_run {actions : List (BatchAction W)}
    (hrun : Runs.run (fun w a ↦ BatchLake.step w fns hash clean a) empty actions = some world)
    (hkeeps : Runs.Along (fun w a ↦ BatchLake.step w fns hash clean a) BatchLake.KeepsHistory empty
      actions) {version : ℕ} (hhas : t.hasChangeHistory = true)
    (hrecorded : world.recordedVersion t = some version) : world.HoldsOnce fns clean t version := by
  have hinv : world.Inv ∧ world.HistoryInv fns clean t := by
    refine Runs.run_invariant (fun w ↦ w.Inv ∧ w.HistoryInv fns clean t)
      (fun w a w' hw hok hstep ↦ ?_) ⟨inv_empty, historyInv_empty fns clean t⟩ hkeeps hrun
    exact ⟨hw.1.step hstep, hw.2.step hw.1 hhas hok hstep⟩
  obtain ⟨stop, hheld⟩ := hinv.2.held
  exact hheld.holdsOnce hrecorded

/-! ### A run that is killed after its append -/

instance {K P : Type} (log : List (BronzeCommit K P)) : DecidablePred (HasRows log) := fun version ↦
  decidable_of_iff ((log[version]?).any (fun c ↦ !c.rows.isEmpty) = true) (by
    rw [Option.any_eq_true]
    refine exists_congr fun c ↦ and_congr_right fun _ ↦ ?_
    rw [Bool.not_eq_true', List.isEmpty_eq_false_iff])

instance {K P : Type} (log : List (BronzeCommit K P)) (p : ℕ → Prop) [DecidablePred p] :
    Decidable (∀ u, HasRows log u → p u) :=
  decidable_of_iff (∀ u < log.length, HasRows log u → p u)
    ⟨fun h u hrows ↦ h u hrows.lt_length hrows, fun h u _ hrows ↦ h u hrows⟩

section Decidable

variable {W : Type} (world : BatchLake W) (t : SilverTable)

instance (u : ℕ) : Decidable (world.Appended t u) :=
  inferInstanceAs (Decidable (∃ seen ∈ world.historyTxn t, u ≤ seen))

instance (u : ℕ) : Decidable (world.Taken t u) :=
  inferInstanceAs (Decidable (_ ∨ ∃ version ∈ world.recordedVersion t, u ≤ version))

instance (current : ℕ) (killed : Bool) : (run : TableRun) →
    Decidable (world.AppendsOnce t current killed run)
  | .replace | .mergeSnapshot => inferInstanceAs (Decidable (∀ _, _ → _))
  | .keep => inferInstanceAs (Decidable True)
  | .mergeChanges start =>
    inferInstanceAs (Decidable (_ → ∀ u, HasRows (world.bronze t) u → world.Taken t u → u < start))

instance : (action : BatchAction W) → Decidable (world.KeepsHistory action)
  | .extract _ found | .extractKilled found _ =>
    decidable_of_iff (∀ t ∈ silverTables, ∀ e ∈ found t, e.isStreamingCdc = false)
      ⟨fun h t ↦ h t (mem_silverTables t), fun h t _ ↦ h t⟩
  | .otherHistory _ rows => inferInstanceAs (Decidable (∀ row ∈ rows, row.ingestionMode ≠ .batch))
  | .runTable writer t fullRebuild killed => inferInstanceAs (Decidable (_ →
    ∀ current ∈ world.bronzeVersion writer t, ∀ run ∈ world.tableRun t fullRebuild current,
      world.AppendsOnce t current killed run))
  | .optimizeBronze .. | .otherCommit .. | .skip .. | .goldStage .. =>
    inferInstanceAs (Decidable True)

end Decidable

/-- A first run, and a second one that is killed when it has appended to the history. -/
def appendKilledActions : List (BatchAction ℕ) :=
  [.extract 0 (foundShops [insertedShop 1 7 'a']), .runTable 0 .shops false false,
    .extract 1 (foundShops [insertedShop 2 8 'b']), .runTable 1 .shops false true]

/-- Retried with the version it had, the append is skipped. -/
theorem historyOnce_of_run_retried : ∃ world : BatchLake ℕ,
    smallBatches (appendKilledActions ++ [.runTable 1 .shops false false]) = some world ∧
      world.recordedVersion .shops = some 1 ∧ world.HoldsOnce .plain (fun _ ↦ id) .shops 1 := by
  have hkeeps : Runs.Along (fun w a ↦ BatchLake.step w .plain smallHash (fun _ ↦ id) a)
      BatchLake.KeepsHistory empty (appendKilledActions ++ [.runTable 1 .shops false false]) := by
    decide +kernel
  have hrun : (smallBatches (appendKilledActions ++ [.runTable 1 .shops false false])).any
      (fun world ↦ world.recordedVersion .shops = some 1) = true := by
    decide +kernel
  obtain ⟨world, hworld, hrecorded⟩ := (Option.any_eq_true _ _).1 hrun
  have hrecorded := of_decide_eq_true hrecorded
  exact ⟨world, hworld, hrecorded, historyOnce_of_run hworld hkeeps rfl hrecorded⟩

/-- **If Bronze has gained an event in between, it is not**, and shop 8 is in the history twice. -/
theorem not_holdsOnce_of_append : ∃ world : BatchLake ℕ,
    smallBatches (appendKilledActions ++
        [.extract 2 (foundShops [insertedShop 3 9 'c']), .runTable 2 .shops false false]) =
          some world ∧
      world.recordedVersion .shops = some 2 ∧ ¬world.HoldsOnce .plain (fun _ ↦ id) .shops 2 := by
  have hrun : (smallBatches (appendKilledActions ++
      [.extract 2 (foundShops [insertedShop 3 9 'c']), .runTable 2 .shops false false])).any
      (fun world ↦ world.recordedVersion .shops = some 2 ∧ (world.bronze .shops).length = 3 ∧
        (world.batchHistory .shops).length = 4 ∧
        (world.historyOf .plain (fun _ ↦ id) .shops 0 3).length = 3) = true := by
    decide +kernel
  obtain ⟨world, hworld, hrun⟩ := (Option.any_eq_true _ _).1 hrun
  obtain ⟨hrecorded, hlength, hhistory, hevents⟩ := of_decide_eq_true hrun
  refine ⟨world, hworld, hrecorded, fun ⟨stop, hperm⟩ ↦ ?_⟩
  -- there is no version after the recorded one
  have hlater : world.historyOf .plain (fun _ ↦ id) .shops (2 + 1) stop = [] :=
    historyOf_eq_nil fun u hge _ hrows ↦ by
      have := hrows.lt_length
      omega
  have hcount := hperm.length_eq
  rw [hlater, List.append_nil, hhistory, hevents] at hcount
  omega

end BatchLake

end LakehousePipeline
