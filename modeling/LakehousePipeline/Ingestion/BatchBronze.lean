import LakehousePipeline.Library.TableLog
import LakehousePipeline.Silver.CurrentState

/-!
# Batch Bronze

A Batch Bronze table is append-only. Each commit of the extraction has the cursor in its metadata, a
commit of maintenance has none and appends nothing, so the version an extraction reports, which
Silver reads up to, is that of the last commit with rows (`extractTable_spec`).

What the source query returns is not modelled here: `extractTable` takes it.
-/

namespace LakehousePipeline

variable {K P : Type}

/-- `PROGRESS_HISTORY_FALLBACK_LIMIT`. -/
def progressHistoryFallbackLimit : ℕ := 100

/-- A commit of a Batch Bronze table. -/
structure BronzeCommit (K P : Type) where
  /-- The rows it appends. -/
  rows : List (BronzeEvent K P)
  /-- `last_event_id` in its metadata; maintenance has none. -/
  lastEventId : Option ℤ

/-- `ingestion_type` of a result. -/
inductive IngestionType
  | initial
  | incremental
  deriving DecidableEq, Repr

/-- `BronzeTableResult`, without the counts by operation, which nothing reads. -/
structure BronzeTableResult where
  /-- `record_count`. -/
  recordCount : ℕ
  /-- `ingestion_type`. -/
  ingestionType : IngestionType
  /-- `delta_version`. -/
  deltaVersion : ℕ
  deriving DecidableEq, Repr

/-- `progress_version` of `delta_table_state`: the last commit of the extraction, if it is
recent. -/
def bronzeProgressVersion (log : List (BronzeCommit K P)) : Option ℕ :=
  TableLog.recentVersionWhere (fun c ↦ c.lastEventId.isSome) progressHistoryFallbackLimit log

/-- `last_event_id` of the rows of an extraction, or the cursor before. -/
def nextCursor (previous : ℤ) (found : List (BronzeEvent K P)) : ℤ :=
  ((found.filterMap fun e ↦ e.eventId.asLong).max?).getD previous

/-- `_read_cursor`, `_run_table` and `_result`, from what the source query returned. A table without
progress metadata raises. -/
def extractTable (log : List (BronzeCommit K P)) (found : List (BronzeEvent K P)) :
    Option (List (BronzeCommit K P) × BronzeTableResult) :=
  if log.isEmpty then
    some ([{ rows := found, lastEventId := some (nextCursor 0 found) }],
      { recordCount := found.length, ingestionType := .initial, deltaVersion := 0 })
  else (bronzeProgressVersion log).map fun processed ↦
    if found.isEmpty then
      (log, { recordCount := 0, ingestionType := .incremental, deltaVersion := processed })
    else
      let cursor := (log[processed]?.bind fun c ↦ c.lastEventId).getD 0
      (log ++ [{ rows := found, lastEventId := some (nextCursor cursor found) }],
        { recordCount := found.length
          ingestionType := .incremental
          deltaVersion := (log.length - 1) ⊔ processed + 1 })

/-- Every commit with rows has a cursor. -/
def CursorsKept (log : List (BronzeCommit K P)) : Prop :=
  ∀ c ∈ log, c.rows ≠ [] → c.lastEventId.isSome = true

/-- The commit of a version has rows. -/
def HasRows (log : List (BronzeCommit K P)) (version : ℕ) : Prop :=
  ∃ c, log[version]? = some c ∧ c.rows ≠ []

theorem HasRows.lt_length {log : List (BronzeCommit K P)} {version : ℕ} (h : HasRows log version) :
    version < log.length := by
  obtain ⟨c, hc, -⟩ := h
  exact (List.getElem?_eq_some_iff.1 hc).1

/-- A version that was there before has rows now only if it had them. -/
theorem HasRows.of_extends {log log' : List (BronzeCommit K P)} {version : ℕ}
    (h : HasRows log' version)
    (hext : log <+: log') (hlt : version < log.length) : HasRows log version := by
  obtain ⟨c, hc, hrows⟩ := h
  obtain ⟨more, rfl⟩ := hext
  rw [List.getElem?_append_left hlt] at hc
  exact ⟨c, hc, hrows⟩

/-- The progress version is in the log, and no later commit has rows. -/
theorem bronzeProgressVersion_spec {log : List (BronzeCommit K P)} (hkept : CursorsKept log)
    {processed : ℕ} (h : bronzeProgressVersion log = some processed) :
    processed < log.length ∧ ∀ version, HasRows log version → version ≤ processed := by
  obtain ⟨heq, c, hc, -⟩ := TableLog.recentVersionWhere_spec h
  refine ⟨(List.getElem?_eq_some_iff.1 hc).1, fun version ⟨d, hd, hrows⟩ ↦ ?_⟩
  rw [heq]
  exact TableLog.le_lastVersionWhere hd (hkept d (List.mem_of_getElem? hd) hrows)

/-- **What an extraction leaves in a table**: the log goes on, and the version reported is that of
the last commit with rows, or a later one. -/
theorem extractTable_spec {log log' : List (BronzeCommit K P)} (hkept : CursorsKept log)
    {found : List (BronzeEvent K P)} {result : BronzeTableResult}
    (h : extractTable log found = some (log', result)) :
    log <+: log' ∧ CursorsKept log' ∧ result.deltaVersion < log'.length ∧
      ∀ version, HasRows log' version → version ≤ result.deltaVersion := by
  rw [extractTable] at h
  split at h
  · rename_i hnil
    obtain rfl := List.isEmpty_iff.1 hnil
    obtain ⟨rfl, rfl⟩ := Prod.mk.inj (Option.some.inj h)
    refine ⟨List.nil_prefix, fun c hc _ ↦ ?_, Nat.zero_lt_one, fun version hrows ↦ ?_⟩
    · rw [List.mem_singleton.1 hc]
      rfl
    · exact Nat.lt_succ_iff.1 hrows.lt_length
  · obtain ⟨processed, hprocessed, heq⟩ := Option.map_eq_some_iff.1 h
    obtain ⟨hlt, hlast⟩ := bronzeProgressVersion_spec hkept hprocessed
    split at heq
    · obtain ⟨rfl, rfl⟩ := Prod.mk.inj heq
      exact ⟨List.prefix_refl _, hkept, hlt, hlast⟩
    · obtain ⟨rfl, rfl⟩ := Prod.mk.inj heq
      -- the version after the latest one is that of the new commit
      have hversion : (log.length - 1) ⊔ processed + 1 = log.length := by omega
      refine ⟨List.prefix_append _ _, fun c hc hrows ↦ ?_, ?_, fun version hrows ↦ ?_⟩
      · rcases List.mem_append.1 hc with hc | hc
        · exact hkept c hc hrows
        · rw [List.mem_singleton.1 hc]
          rfl
      · show (log.length - 1) ⊔ processed + 1 < _
        rw [hversion, List.length_append]
        exact Nat.lt_succ_self _
      · show version ≤ (log.length - 1) ⊔ processed + 1
        have hlength := hrows.lt_length
        rw [List.length_append, List.length_singleton] at hlength
        omega

end LakehousePipeline
