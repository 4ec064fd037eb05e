import LakehousePipeline.Library.MergeInto
import LakehousePipeline.Library.Runs
import LakehousePipeline.Spark
import Mathlib.Data.Fintype.Basic
import Mathlib.Logic.Function.Basic

/-!
# The cloud writer lock

`cloud_pipeline_lock` is a lease: one Delta table has a row per lock name with its owner and the
time it expires at. A contender merges its own row in, which replaces the row of the name only once
that row has expired, and enters if the row it then reads back is its own. The row is deleted when
the section ends. It is not renewed and the protected work does not look at it again.

Each call makes up a fresh `owner_id`, so a contender is one call. The steps of one contender come
in program order; those of different contenders, and the passing of time, interleave freely. A
`MERGE` takes effect at once or raises a concurrency error, but the time it evaluates
`current_timestamp()` at is when the statement started.

## What excludes what

A row that has not expired belongs to whoever holds it, so the lock excludes other contenders as
long as each section ends before the row expires (`exclusive_of_step` and, over runs,
`cloudPipelineLock_exclusive`). Work that outlives the row is not excluded from anything: the next
contender takes the row over while the section still runs (`cloudPipelineLock_overlap`).
-/

namespace LakehousePipeline

open MergeInto Runs

/-- `CoordinationConfig`, as far as the cloud lock reads it, with the bounds its fields are
validated against. -/
structure CoordinationConfig where
  /-- `cloud_lock_name`. -/
  cloudLockName : Text
  /-- `cloud_lock_ttl_seconds`. -/
  cloudLockTtlSeconds : ℕ
  /-- `lock_wait_seconds`. -/
  lockWaitSeconds : ℕ
  /-- `ge=300, le=86_400`. -/
  ttl_bounds : 300 ≤ cloudLockTtlSeconds ∧ cloudLockTtlSeconds ≤ 86400
  /-- `le=3600`. -/
  wait_le : lockWaitSeconds ≤ 3600

/-- A number of seconds, in microseconds. -/
def seconds (n : ℕ) : Timestamp := n * 1000000

/-- Where `coordination_reference` keeps the lock table. -/
inductive LockStorage
  /-- A path, without a catalog. -/
  | path
  /-- A catalog table with its own storage path. -/
  | external
  /-- A catalog table without one, whose rows are lost when it is dropped. -/
  | managed
  deriving DecidableEq

variable {Owner : Type}

/-- A row of the lock table. -/
structure LockRow (Owner : Type) where
  /-- `lock_name`. -/
  lockName : Text
  /-- `owner_id`. -/
  ownerId : Owner
  /-- `acquired_at`. -/
  acquiredAt : Timestamp
  /-- `expires_at`. -/
  expiresAt : Timestamp
  deriving DecidableEq

/-- `contender`, evaluated by a statement that started at a time. -/
def contender (settings : CoordinationConfig) (ownerId : Owner) (started : Timestamp) :
    LockRow Owner where
  lockName := settings.cloudLockName
  ownerId := ownerId
  acquiredAt := started
  expiresAt := started + seconds settings.cloudLockTtlSeconds

/-- The merge of a contender: an expired row is taken over, a missing one inserted. -/
def lockMerge (started : Timestamp) : Merge (LockRow Owner) (LockRow Owner) where
  on target source := target.lockName = source.lockName
  matched := [{
    condition := fun target _ ↦ target.expiresAt ≤ started
    action := fun target source ↦ some { target with
      ownerId := source.ownerId
      acquiredAt := source.acquiredAt
      expiresAt := source.expiresAt } }]
  notMatched source := some source
  deleteNotMatchedBySource := false

/-- The merge compares the lock names. -/
theorem lockMerge_keyed (started : Timestamp) :
    (lockMerge started : Merge (LockRow Owner) _).Keyed LockRow.lockName LockRow.lockName where
  on_iff _ _ := decide_eq_true_iff
  key_action c hc target source row hkey haction := by
    obtain rfl := List.mem_singleton.1 hc
    rw [← Option.some.inj haction]
    exact hkey
  key_notMatched source row h := by rw [Option.some.inj h]

/-- Where a call of `cloud_pipeline_lock` is. -/
inductive LockPhase
  /-- Not called yet. -/
  | idle
  /-- `_ensure_lock_table` found no table. -/
  | creating
  /-- `_ensure_lock_table` has dropped the registration and writes the table. -/
  | writing
  /-- At the top of the loop, to give up at a deadline. -/
  | waiting (deadline : Timestamp)
  /-- The merge took effect and is to be read back. -/
  | merged (deadline : Timestamp)
  /-- Without the lock, before the deadline is checked. -/
  | checking (deadline : Timestamp)
  /-- In the critical section; the row read back expires at a time. -/
  | holding (expiresAt : Timestamp)
  /-- After the critical section, before the row is deleted. -/
  | leaving
  /-- Returned, raised or killed. -/
  | finished
  deriving DecidableEq

/-- When the row expires that a contender inside has read back. -/
def LockPhase.heldUntil : LockPhase → Option Timestamp
  | .holding expiresAt => some expiresAt
  | _ => none

/-- The lock table, the contenders and the clock. -/
structure LockState (Owner : Type) where
  /-- The time. -/
  now : Timestamp
  /-- Whether the lock table can be found. -/
  registered : Bool
  /-- The rows of the lock table. -/
  rows : List (LockRow Owner)
  /-- Where each contender is. -/
  phase : Owner → LockPhase

/-- What can happen next. -/
inductive LockAction (Owner : Type)
  /-- Time passes. -/
  | tick (microseconds : ℕ)
  /-- `_lock_table_exists`. -/
  | checkTable (c : Owner)
  /-- `DROP TABLE IF EXISTS`, for a table in a catalog. -/
  | dropTable (c : Owner)
  /-- The empty append that creates the table. -/
  | writeTable (c : Owner)
  /-- A merge takes effect that started at a time. -/
  | merge (c : Owner) (started : Timestamp)
  /-- The merge or the read raises a concurrency error. -/
  | conflict (c : Owner)
  /-- The row of the lock name is read. -/
  | readBack (c : Owner)
  /-- Before the deadline, `sleep(5)` and once more. -/
  | retry (c : Owner)
  /-- After the deadline, `PipelineLockUnavailable`. -/
  | timeOut (c : Owner)
  /-- The protected work ends, normally or not. -/
  | endSection (c : Owner)
  /-- The `finally` block. -/
  | release (c : Owner)
  /-- Any other error, or the process is killed. -/
  | stop (c : Owner)

/-- Whether the step drops the lock table. -/
def LockAction.drops : LockAction Owner → Bool
  | .dropTable _ => true
  | _ => false

namespace LockState

variable [DecidableEq Owner]

/-- The state with a contender moved on. -/
def enter (s : LockState Owner) (c : Owner) (phase : LockPhase) : LockState Owner :=
  { s with phase := Function.update s.phase c phase }

/-- Moving on takes no time. -/
@[simp] theorem enter_now (s : LockState Owner) (c : Owner) (p : LockPhase) :
    (s.enter c p).now = s.now := rfl

/-- It leaves the lock table. -/
@[simp] theorem enter_rows (s : LockState Owner) (c : Owner) (p : LockPhase) :
    (s.enter c p).rows = s.rows := rfl

/-- And moves one contender. -/
@[simp] theorem enter_phase (s : LockState Owner) (c d : Owner) (p : LockPhase) :
    (s.enter c p).phase d = if d = c then p else s.phase d :=
  Function.update_apply ..

/-- A contender that moves elsewhere lets nobody in. -/
theorem holding_of_enter {s : LockState Owner} {c d : Owner} {p : LockPhase} {e : Timestamp}
    (hp : ∀ e, p ≠ .holding e) (h : (s.enter c p).phase d = .holding e) :
    s.phase d = .holding e := by
  rw [enter_phase] at h
  split at h
  · exact absurd h (hp e)
  · exact h

/-- `DROP TABLE IF EXISTS`: a managed table goes with its rows, of an external one only the
registration does. -/
def dropTable (storage : LockStorage) (s : LockState Owner) : LockState Owner :=
  match storage with
  | .path => s
  | .external => { s with registered := false }
  | .managed => { s with registered := false, rows := [] }

omit [DecidableEq Owner] in
/-- Dropping the table moves nobody. -/
@[simp] theorem dropTable_phase (storage : LockStorage) (s : LockState Owner) :
    (s.dropTable storage).phase = s.phase := by
  cases storage <;> rfl

/-- In the critical section of `cloud_pipeline_lock`. -/
def Inside (s : LockState Owner) (c : Owner) : Prop :=
  ∃ expiresAt, s.phase c = .holding expiresAt

end LockState

section Step

variable [DecidableEq Owner] (settings : Owner → CoordinationConfig) (storage : LockStorage)

/-- Where a contender is once it has read the row of its lock name. -/
def readBackPhase (s : LockState Owner) (c : Owner) (deadline : Timestamp) : LockPhase :=
  match lookup LockRow.lockName (settings c).cloudLockName s.rows with
  | some current => if current.ownerId = c then .holding current.expiresAt else .checking deadline
  | none => .checking deadline

/-- The deadline of a contender that starts to wait. -/
def deadlineOf (s : LockState Owner) (c : Owner) : Timestamp :=
  s.now + seconds (settings c).lockWaitSeconds

/-- **One step of `cloud_pipeline_lock`, or the passing of time.** -/
def lockStep (s : LockState Owner) : LockAction Owner → Option (LockState Owner)
  | .tick microseconds => some { s with now := s.now + microseconds }
  | .checkTable c =>
    match s.phase c with
    | .idle => some (s.enter c (if s.registered then .waiting (deadlineOf settings s c)
        else .creating))
    | _ => none
  | .dropTable c =>
    match s.phase c with
    | .creating => some ((s.dropTable storage).enter c .writing)
    | _ => none
  | .writeTable c =>
    -- an append of no rows: it creates the table, and changes nothing if another one has
    match s.phase c with
    | .writing => some ({ s with registered := true }.enter c (.waiting (deadlineOf settings s c)))
    | _ => none
  | .merge c started =>
    match s.phase c with
    | .waiting deadline =>
      if s.registered ∧ started ≤ s.now then
        ((lockMerge started).execute s.rows [contender (settings c) c started]).map fun rows ↦
          { s with rows := rows }.enter c (.merged deadline)
      else none
    | _ => none
  | .conflict c =>
    match s.phase c with
    | .waiting deadline | .merged deadline => some (s.enter c (.checking deadline))
    | _ => none
  | .readBack c =>
    match s.phase c with
    | .merged deadline =>
      if s.registered then some (s.enter c (readBackPhase settings s c deadline)) else none
    | _ => none
  | .retry c =>
    match s.phase c with
    | .checking deadline => if s.now < deadline then some (s.enter c (.waiting deadline)) else none
    | _ => none
  | .timeOut c =>
    match s.phase c with
    | .checking deadline => if deadline ≤ s.now then some (s.enter c .finished) else none
    | _ => none
  | .endSection c =>
    match s.phase c with
    | .holding _ => some (s.enter c .leaving)
    | _ => none
  | .release c =>
    match s.phase c with
    | .leaving =>
      if s.registered then
        some ({ s with rows := s.rows.filter fun row ↦
          !(row.lockName = (settings c).cloudLockName ∧ row.ownerId = c) }.enter c .finished)
      else none
    | _ => none
  | .stop c => some (s.enter c .finished)

/-- The state before any call: a clock, and a table with what earlier jobs left in it. -/
def lockStart (now : Timestamp) (registered : Bool) (rows : List (LockRow Owner)) :
    LockState Owner :=
  ⟨now, registered, rows, fun _ ↦ .idle⟩

end Step

section Steps

variable [DecidableEq Owner] {settings : Owner → CoordinationConfig} {storage : LockStorage}
  {s s' : LockState Owner} {a : LockAction Owner}

/-! ### What a step can do -/

/-- **What a step does to the lock table.** -/
theorem rows_of_lockStep (h : lockStep settings storage s a = some s') :
    s'.rows = s.rows ∨
      (∃ c, a = .dropTable c ∧ storage = .managed ∧ s'.rows = []) ∨
      (∃ c started deadline, a = .merge c started ∧ s.phase c = .waiting deadline ∧
        started ≤ s.now ∧
        (lockMerge started).execute s.rows [contender (settings c) c started] = some s'.rows) ∨
      ∃ c, a = .release c ∧ s.phase c = .leaving ∧ s'.rows = s.rows.filter fun row ↦
        !(row.lockName = (settings c).cloudLockName ∧ row.ownerId = c) := by
  rcases a with _ | c | c | c | ⟨c, started⟩ | c | c | c | c | c | c | c <;>
    simp only [lockStep] at h
  case dropTable =>
    split at h
    · rw [← Option.some.inj h, LockState.enter_rows]
      rcases storage with _ | _ | _
      · exact Or.inl rfl
      · exact Or.inl rfl
      · exact Or.inr (Or.inl ⟨c, rfl, rfl, rfl⟩)
    · cases h
  case merge =>
    split at h
    · rename_i deadline hphase
      rw [Option.ite_none_right_eq_some, Option.map_eq_some_iff] at h
      obtain ⟨⟨-, hstarted⟩, rows, hrows, rfl⟩ := h
      exact Or.inr (Or.inr (Or.inl ⟨c, started, deadline, rfl, hphase, hstarted, hrows⟩))
    · cases h
  case release =>
    split at h
    · rename_i hphase
      rw [Option.ite_none_right_eq_some] at h
      rw [← Option.some.inj h.2, LockState.enter_rows]
      exact Or.inr (Or.inr (Or.inr ⟨c, rfl, hphase, rfl⟩))
    · cases h
  all_goals
    left
    repeat' split at h
    all_goals cases h
    all_goals rfl

/-- **A contender is inside because it was before, or because it just read back its own row.** -/
theorem holding_of_lockStep (h : lockStep settings storage s a = some s') {d : Owner}
    {expiresAt : Timestamp} (hd : s'.phase d = .holding expiresAt) :
    s.phase d = .holding expiresAt ∨ a = .readBack d ∧ s'.rows = s.rows ∧
      ∃ row, lookup LockRow.lockName (settings d).cloudLockName s.rows = some row ∧
        row.ownerId = d ∧ row.expiresAt = expiresAt := by
  rcases a with _ | c | c | c | ⟨c, started⟩ | c | c | c | c | c | c | c <;>
    simp only [lockStep] at h
  case readBack =>
    split at h
    · rw [Option.ite_none_right_eq_some] at h
      obtain rfl := Option.some.inj h.2
      rw [LockState.enter_phase] at hd
      split at hd
      · rename_i hdc
        subst hdc
        rw [readBackPhase] at hd
        split at hd
        · rename_i row hrow
          split at hd
          · rename_i howner
            exact Or.inr ⟨rfl, rfl, row, hrow, howner, LockPhase.holding.inj hd⟩
          · cases hd
        · cases hd
      · exact Or.inl hd
    · cases h
  case merge =>
    split at h
    · rw [Option.ite_none_right_eq_some, Option.map_eq_some_iff] at h
      obtain ⟨-, rows, -, rfl⟩ := h
      exact Or.inl (LockState.holding_of_enter (fun _ ↦ LockPhase.noConfusion) hd)
    · cases h
  case dropTable =>
    split at h
    · obtain rfl := Option.some.inj h
      have hd := LockState.holding_of_enter (fun _ ↦ LockPhase.noConfusion) hd
      rw [LockState.dropTable_phase] at hd
      exact Or.inl hd
    · cases h
  case tick =>
    obtain rfl := Option.some.inj h
    exact Or.inl hd
  case checkTable =>
    split at h
    · obtain rfl := Option.some.inj h
      refine Or.inl (LockState.holding_of_enter (fun _ ↦ ?_) hd)
      split <;> exact LockPhase.noConfusion
    · cases h
  -- the other steps move one contender, and not into its section
  all_goals
    left
    repeat' split at h
    all_goals cases h
    all_goals exact LockState.holding_of_enter (fun _ ↦ LockPhase.noConfusion) hd

/-! ### The holder of a row that has not expired -/

variable (settings) in
/-- **The invariant**: lock names are distinct in the lock table, and a contender that is inside
owns the row it read back. -/
structure LockInv (s : LockState Owner) : Prop where
  /-- One row for a lock name. -/
  nodup : (s.rows.map LockRow.lockName).Nodup
  /-- Whoever is inside owns the row of its lock name. -/
  held : ∀ c expiresAt, s.phase c = .holding expiresAt →
    ∃ row, lookup LockRow.lockName (settings c).cloudLockName s.rows = some row ∧
      row.ownerId = c ∧ row.expiresAt = expiresAt

variable (storage) in
/-- **No section outlives its row**, and no lock row goes with a dropped table. -/
def InTime (s : LockState Owner) (a : LockAction Owner) : Prop :=
  (∀ c, ∀ expiresAt ∈ (s.phase c).heldUntil, s.now < expiresAt) ∧
    (a.drops = true → storage = .managed → s.rows = [])

instance [Fintype Owner] (storage : LockStorage) (s : LockState Owner) (a : LockAction Owner) :
    Decidable (InTime storage s a) :=
  inferInstanceAs (Decidable ((∀ c, ∀ expiresAt ∈ (s.phase c).heldUntil, s.now < expiresAt) ∧
    (a.drops = true → storage = .managed → s.rows = [])))

omit [DecidableEq Owner] in
/-- Nobody is inside at the start. -/
theorem LockInv.start (now : Timestamp) (registered : Bool) {rows : List (LockRow Owner)}
    (hrows : (rows.map LockRow.lockName).Nodup) :
    LockInv settings (lockStart now registered rows) :=
  ⟨hrows, fun _ _ h ↦ by cases h⟩

omit [DecidableEq Owner] in
/-- **A merge leaves the rows alone that have not expired.** -/
theorem lookup_execute_lockMerge {rows rows' : List (LockRow Owner)} {started : Timestamp}
    (hrows : (rows.map LockRow.lockName).Nodup) {source : LockRow Owner}
    (h : (lockMerge started).execute rows [source] = some rows') :
    (rows'.map LockRow.lockName).Nodup ∧ ∀ name row, lookup LockRow.lockName name rows = some row →
      started < row.expiresAt → lookup LockRow.lockName name rows' = some row := by
  have hsource : ([source].map LockRow.lockName).Nodup := List.nodup_singleton _
  obtain ⟨result, hresult, hnodup, hlookup⟩ := execute_spec (lockMerge_keyed started) hrows hsource
  obtain rfl : result = rows' := Option.some.inj (hresult.symm.trans h)
  refine ⟨hnodup, fun name row hrow hfresh ↦ ?_⟩
  rw [hlookup, hrow]
  cases lookup LockRow.lockName name [source] with
  | none => rfl
  | some source =>
    show (lockMerge started).applyMatched row source = some row
    have hnone : (lockMerge started).matched.find? (fun c ↦ c.condition row source) = none := by
      simpa [lockMerge] using hfresh
    rw [Merge.applyMatched, hnone]

/-- Every step in time keeps the invariant. -/
theorem lockInv_lockStep (hinv : LockInv settings s) (hok : InTime storage s a)
    (h : lockStep settings storage s a = some s') : LockInv settings s' := by
  rcases rows_of_lockStep h with hrows | ⟨c, rfl, hmanaged, hrows⟩ |
    ⟨c, started, deadline, rfl, hphase, hstarted, hexecute⟩ | ⟨c, rfl, hphase, hrows⟩
  · refine ⟨hrows ▸ hinv.nodup, fun d e hd ↦ ?_⟩
    rw [hrows]
    rcases holding_of_lockStep h hd with hbefore | ⟨-, -, hread⟩
    · exact hinv.held d e hbefore
    · exact hread
  · -- the dropped table had no rows
    rw [← hok.2 rfl hmanaged] at hrows
    refine ⟨hrows ▸ hinv.nodup, fun d e hd ↦ ?_⟩
    rw [hrows]
    rcases holding_of_lockStep h hd with hbefore | ⟨hact, -⟩
    · exact hinv.held d e hbefore
    · cases hact
  · obtain ⟨hnodup, hkept⟩ := lookup_execute_lockMerge hinv.nodup hexecute
    refine ⟨hnodup, fun d e hd ↦ ?_⟩
    rcases holding_of_lockStep h hd with hbefore | ⟨hact, -⟩
    · obtain ⟨row, hrow, howner, hexpires⟩ := hinv.held d e hbefore
      have hfresh : s.now < row.expiresAt := hok.1 d _ (by rw [hbefore, hexpires]; rfl)
      exact ⟨row, hkept _ row hrow (hstarted.trans_lt hfresh), howner, hexpires⟩
    · cases hact
  · have hnodup : (s'.rows.map LockRow.lockName).Nodup :=
      hrows ▸ hinv.nodup.sublist (List.filter_sublist.map _)
    refine ⟨hnodup, fun d e hd ↦ ?_⟩
    rcases holding_of_lockStep h hd with hbefore | ⟨hact, -⟩
    · obtain ⟨row, hrow, howner, hexpires⟩ := hinv.held d e hbefore
      obtain ⟨hmem, hname⟩ := mem_of_lookup hrow
      refine ⟨row, (lookup_eq_some_iff hnodup).2 ⟨?_, hname⟩, howner, hexpires⟩
      -- who releases is not inside any more
      have hdc : row.ownerId ≠ c := by
        rintro rfl
        rw [howner, hbefore] at hphase
        cases hphase
      rw [hrows, List.mem_filter]
      exact ⟨hmem, by simp [hdc]⟩
    · cases hact

omit [DecidableEq Owner] in
/-- Two contenders for one lock name that own its row are one. -/
theorem LockInv.exclusive (hinv : LockInv settings s) {c d : Owner}
    (hname : (settings c).cloudLockName = (settings d).cloudLockName) (hc : s.Inside c)
    (hd : s.Inside d) : c = d := by
  obtain ⟨e, hc⟩ := hc
  obtain ⟨e', hd⟩ := hd
  obtain ⟨row, hrow, rfl, -⟩ := hinv.held c e hc
  obtain ⟨row', hrow', rfl, -⟩ := hinv.held d e' hd
  rw [hname, hrow'] at hrow
  rw [Option.some.inj hrow]

/-- **A release deletes rows of its own owner only.** -/
theorem mem_rows_release {c : Owner} (h : lockStep settings storage s (.release c) = some s')
    {row : LockRow Owner} (hrow : row ∈ s.rows) (howner : row.ownerId ≠ c) : row ∈ s'.rows := by
  rcases rows_of_lockStep h with hrows | ⟨_, hact, -⟩ | ⟨_, _, _, hact, -⟩ | ⟨_, hact, -, hrows⟩
  · rwa [hrows]
  · cases hact
  · cases hact
  · cases hact
    rw [hrows, List.mem_filter]
    exact ⟨hrow, by simp [howner]⟩

end Steps

section Main

variable [DecidableEq Owner]

/-- **Mutual exclusion of the cloud lock.** In every run from a lock table with one row for a name
in which each section ends before the row it read back expires, at most one contender for a lock
name is inside; and no release, in any state, deletes another owner's row. -/
theorem cloudPipelineLock_exclusive (settings : Owner → CoordinationConfig) (storage : LockStorage)
    (now : Timestamp) (registered : Bool) (rows : List (LockRow Owner))
    (hrows : (rows.map LockRow.lockName).Nodup) :
    (∀ actions s, Along (lockStep settings storage) (InTime storage)
        (lockStart now registered rows) actions →
      run (lockStep settings storage) (lockStart now registered rows) actions = some s →
      ∀ c d, (settings c).cloudLockName = (settings d).cloudLockName →
        s.Inside c → s.Inside d → c = d) ∧
    ∀ s s' c, lockStep settings storage s (.release c) = some s' →
      ∀ row ∈ s.rows, row.ownerId ≠ c → row ∈ s'.rows := by
  refine ⟨fun actions s hok hrun c d hname hc hd ↦ ?_,
    fun s s' c h row hrow howner ↦ mem_rows_release h hrow howner⟩
  have hinv : LockInv settings s :=
    run_invariant (LockInv settings) (fun _ _ _ hinv hok h ↦ lockInv_lockStep hinv hok h)
      (.start now registered hrows) hok hrun
  exact hinv.exclusive hname hc hd

/-- Two calls with the shortest lease. -/
def shortLease : Bool → CoordinationConfig := fun _ ↦
  ⟨['w'], 300, 600, by decide, by decide⟩

/-- Two calls start on an empty table; the first one enters. -/
def firstEnters : List (LockAction Bool) :=
  [.checkTable true, .checkTable false, .merge true 0, .readBack true]

/-- The first call releases the lock and the second one takes it. -/
def handover : List (LockAction Bool) :=
  firstEnters ++ [.merge false 0, .readBack false, .endSection true, .release true,
    .tick 5000000, .retry false, .merge false 5000000, .readBack false]

/-- The second call is alone inside. -/
theorem cloudPipelineLock_exclusive_handover :
    ∃ s, run (lockStep shortLease .external) (lockStart 0 true []) handover = some s ∧
      s.Inside false ∧ ∀ c, s.Inside c → c = false :=
  ⟨_, rfl, ⟨305000000, rfl⟩, fun c hc ↦
    (cloudPipelineLock_exclusive shortLease .external 0 true [] List.nodup_nil).1 handover _
      (by decide) rfl c false rfl hc ⟨305000000, rfl⟩⟩

/-- **A section that outlives its row overlaps with the next one**: when the lease of the first call
runs out the second call takes the row over and enters, and the first is still inside. -/
theorem cloudPipelineLock_overlap :
    ¬∀ (Owner : Type) [DecidableEq Owner] (settings : Owner → CoordinationConfig)
      (storage : LockStorage) (now : Timestamp) actions s,
      run (lockStep settings storage) (lockStart now true []) actions = some s →
      ∀ c d, (settings c).cloudLockName = (settings d).cloudLockName →
        s.Inside c → s.Inside d → c = d := by
  intro hexclusive
  have htrue : (true : Bool) = false :=
    hexclusive Bool shortLease .external 0
      (firstEnters ++ [.tick 300000000, .merge false 300000000, .readBack false]) _ rfl
      true false rfl ⟨300000000, rfl⟩ ⟨600000000, rfl⟩
  cases htrue

/-- **So does a table dropped too late**: both calls find no table, and the second one drops the
managed table that the first one has created and entered by. No time passes at all. -/
theorem cloudPipelineLock_overlap_dropTable :
    ∃ s, run (lockStep shortLease .managed) (lockStart 0 false [])
        [.checkTable true, .checkTable false, .dropTable true, .writeTable true, .merge true 0,
          .readBack true, .dropTable false, .writeTable false, .merge false 0,
          .readBack false] = some s ∧
      s.now = 0 ∧ s.Inside true ∧ s.Inside false :=
  ⟨_, rfl, rfl, ⟨300000000, rfl⟩, ⟨300000000, rfl⟩⟩

end Main

end LakehousePipeline
