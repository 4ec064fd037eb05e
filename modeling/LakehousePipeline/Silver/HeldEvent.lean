import LakehousePipeline.Library.Runs
import LakehousePipeline.Silver.Lake

/-!
# The event Silver holds

Which event a row of Silver carries, for events of any kind: where stamps tie, the window of
`current_state` decides inside a piece, by the text of the event id, and the row that is there stays
between pieces. So a key is merged as one event per piece (`mergedEvents`), and of these Silver
holds the newest, those aside that come before the first that leaves the key a row (`silverEvent`).

`silverSteps_spec` is what a run of Silver steps of one table leaves: every event in the change
history, and of each key the event it holds.
-/

namespace LakehousePipeline

variable {K P : Type} [DecidableEq K]

/-! ### The events a key is merged as -/

/-- The event of a key a piece is collapsed to: the first in the window of `current_state`. -/
def SilverPiece.currentOf (fns : SparkFunctions) (k : K) (piece : SilverPiece K P) :
    Option (BronzeEvent K P) :=
  (Window.firstPerPartition (fun e ↦ e.key) (fun a b ↦ b.windowOrder fns ≤ a.windowOrder fns)
    piece.events).find? fun e ↦ e.key = k

/-- The events a key is merged as, each with whether its piece is a CDC micro-batch. -/
def mergedEvents (fns : SparkFunctions) (k : K) (pieces : List (SilverPiece K P)) :
    List (Bool × BronzeEvent K P) :=
  pieces.filterMap fun piece ↦ (piece.currentOf fns k).map fun e ↦ (piece.isCdc, e)

/-- The event Silver holds of a key: the newest it is merged as, from the first on that is no CDC
delete. -/
def silverEvent (fns : SparkFunctions) (k : K) (pieces : List (SilverPiece K P)) :
    Option (BronzeEvent K P) :=
  LastWriterWins.newest (fun e ↦ e.sequence)
    (((mergedEvents fns k pieces).dropWhile fun w ↦ w.1 && w.2.operation = .delete).map Prod.snd)

/-- The event a key holds after it is merged as more events. -/
def writeEvents (held : Option (BronzeEvent K P)) (writes : List (Bool × BronzeEvent K P)) :
    Option (BronzeEvent K P) :=
  writes.foldl (fun held w ↦ writeEvent w.1 held w.2) held

omit [DecidableEq K] in
/-- A key with a row is a plain last-writer-wins register. -/
theorem writeEvents_some (h : BronzeEvent K P) (writes : List (Bool × BronzeEvent K P)) :
    writeEvents (some h) writes =
      (writes.map Prod.snd).foldl (LastWriterWins.write fun e ↦ e.sequence) (some h) := by
  induction writes generalizing h with
  | nil => rfl
  | cons w rest ih =>
    show writeEvents (LastWriterWins.write _ (some h) w.2) rest = _
    rw [List.map_cons, List.foldl_cons]
    rcases lt_or_ge h.sequence w.2.sequence with hlt | hge
    · rw [LastWriterWins.write_of_lt hlt]
      exact ih w.2
    · rw [LastWriterWins.write_of_ge hge]
      exact ih h

omit [DecidableEq K] in
/-- A key without a row stays without one up to the first event that is no CDC delete. -/
theorem writeEvents_none (writes : List (Bool × BronzeEvent K P)) :
    writeEvents none writes = LastWriterWins.newest (fun e ↦ e.sequence)
      ((writes.dropWhile fun w ↦ w.1 && w.2.operation = .delete).map Prod.snd) := by
  induction writes with
  | nil => rfl
  | cons w rest ih =>
    by_cases hdel : w.1 = true ∧ w.2.operation = .delete
    · rw [List.dropWhile_cons_of_pos (by simpa using hdel), ← ih]
      show writeEvents (if _ then none else _) rest = _
      rw [if_pos hdel]
    · rw [List.dropWhile_cons_of_neg (by simpa using hdel)]
      show writeEvents (if _ then none else _) rest = _
      rw [if_neg hdel]
      exact writeEvents_some w.2 rest

/-! ### The merges -/

section Merge

variable [DecidableEq P] (fns : SparkFunctions) (clean : P → P)

omit [DecidableEq P] in
/-- A key is merged as the event the window keeps of it. -/
theorem lookup_transformTable_eq_currentOf (piece : SilverPiece K P) (k : K) :
    MergeInto.lookup (fun row ↦ row.key) k (transformTable fns clean piece.events) =
      (piece.currentOf fns k).map (mergedRow fns clean) := by
  rw [transformTable_eq_map, MergeInto.lookup, List.find?_map]
  rfl

omit [DecidableEq P] in
/-- That is an event of the key. -/
theorem key_of_currentOf {piece : SilverPiece K P} {k : K} {e : BronzeEvent K P}
    (h : piece.currentOf fns k = some e) : e.key = k := by
  simpa using List.find?_some h

/-- **After pieces each key holds what it was merged as.** -/
theorem holds_writeEvents (pieces : List (SilverPiece K P)) (table : List (SilverRow K P))
    (hkeys : (table.map fun row ↦ row.key).Nodup) (held : K → Option (BronzeEvent K P))
    (hheld : ∀ k, Holds clean (MergeInto.lookup (fun row ↦ row.key) k table) (held k)) :
    ∃ table', mergePieces fns clean table pieces = some table' ∧
      (table'.map fun row ↦ row.key).Nodup ∧
      ∀ k, Holds clean (MergeInto.lookup (fun row ↦ row.key) k table')
        (writeEvents (held k) (mergedEvents fns k pieces)) := by
  induction pieces generalizing table held with
  | nil => exact ⟨table, rfl, hkeys, hheld⟩
  | cons piece rest ih =>
    obtain ⟨table₁, hmerge, hkeys₁, hlookup⟩ := lookup_mergePiece fns clean hkeys piece
    have hheld₁ : ∀ k, Holds clean (MergeInto.lookup (fun row ↦ row.key) k table₁)
        (((piece.currentOf fns k).map fun e ↦ writeEvent piece.isCdc (held k) e).getD
          (held k)) := by
      intro k
      rw [hlookup, lookup_transformTable_eq_currentOf]
      rcases hcurrent : piece.currentOf fns k with - | e
      · -- a piece without the key leaves its row alone
        rcases hrow : MergeInto.lookup (fun row ↦ row.key) k table with - | row <;>
          exact hrow ▸ hheld k
      · refine holds_mergeSilverRow fns clean (hheld k) fun t ht ↦ ?_
        rw [(MergeInto.mem_of_lookup ht).2]
        exact (key_of_currentOf fns hcurrent).symm
    obtain ⟨table₂, hrest, hkeys₂, hheld₂⟩ := ih table₁ hkeys₁ _ hheld₁
    refine ⟨table₂, ?_, hkeys₂, fun k ↦ ?_⟩
    · rw [mergePieces, List.foldlM_cons, hmerge]
      exact hrest
    · have hk := hheld₂ k
      rw [mergedEvents, List.filterMap_cons]
      rcases hcurrent : piece.currentOf fns k with - | e
      · rw [hcurrent] at hk
        exact hk
      · rw [hcurrent] at hk
        exact hk

omit [DecidableEq K] [DecidableEq P] in
/-- A row shows what the event it carries says. -/
theorem Holds.shown {row : Option (SilverRow K P)} {held : Option (BronzeEvent K P)}
    (h : Holds clean row held) :
    (row.filter fun row ↦ !row.isDeleted).map (fun row ↦ row.payload) =
      (held.filter fun e ↦ e.operation ≠ .delete).map fun e ↦ clean e.payload := by
  rcases row with - | row <;> rcases held with - | e
  · rfl
  · exact h.elim
  · exact h.elim
  · have hcarries : Carries clean row e := h
    by_cases hdel : e.operation = .delete
    · rw [Option.filter_some, Option.filter_some]
      simp [hcarries.isDeleted.2 hdel, hdel]
    · have hshown : row.isDeleted = false :=
        Bool.eq_false_iff.2 fun hd ↦ hdel (hcarries.isDeleted.1 hd)
      rw [Option.filter_some, Option.filter_some]
      simp [hshown, hdel, hcarries.payload hdel]

/-- **What Silver shows of a key** is the event it holds, unless that is a delete. -/
theorem visibleRow_mergePieces (pieces : List (SilverPiece K P)) :
    ∃ table, mergePieces fns clean [] pieces = some table ∧
      ∀ k, (visibleRow table k).map (fun row ↦ row.payload) =
        ((silverEvent fns k pieces).filter fun e ↦ e.operation ≠ .delete).map
          fun e ↦ clean e.payload := by
  obtain ⟨table, hmerge, hkeys, hholds⟩ := holds_writeEvents fns clean pieces [] List.nodup_nil
    (fun _ ↦ none) fun _ ↦ trivial
  refine ⟨table, hmerge, fun k ↦ ?_⟩
  have hk := hholds k
  rw [writeEvents_none] at hk
  rw [visibleRow_eq_filter hkeys]
  exact hk.shown clean

end Merge

/-! ### Where stamps identify events -/

/-- With distinct sequences a piece is collapsed to its newest event. -/
theorem currentOf_eq_newestOf (fns : SparkFunctions) {pieces : List (SilverPiece K P)}
    (h : DistinctSequences pieces) {piece : SilverPiece K P} (hpiece : piece ∈ pieces) (k : K) :
    piece.currentOf fns k = piece.newestOf k := by
  have hstamps : LastWriterWins.StampsIdentify (fun e ↦ e.sequence) (eventsOf k piece.events) :=
    (h.stampsIdentify k).mono fun e he ↦ mem_eventsOfPieces.2 ⟨piece, hpiece, mem_eventsOf.1 he⟩
  rcases find?_windowOrder fns piece.events k with ⟨hfind, hno⟩ | ⟨e, he, hk, hnewest, hfind⟩
  · have hnil : eventsOf k piece.events = [] :=
      List.filter_eq_nil_iff.2 fun e he ↦ by simpa using hno e he
    rw [SilverPiece.currentOf, hfind, SilverPiece.newestOf, hnil]
    rfl
  · rw [SilverPiece.currentOf, hfind, SilverPiece.newestOf, eq_comm,
      LastWriterWins.newest_eq_some_iff hstamps]
    refine ⟨mem_eventsOf.2 ⟨he, hk⟩, fun x hx ↦ ?_⟩
    obtain ⟨hxin, hxk⟩ := mem_eventsOf.1 hx
    exact hnewest x hxin hxk

/-- **With distinct sequences Silver holds the newest recorded event.** -/
theorem silverEvent_eq_some_iff (fns : SparkFunctions) {pieces : List (SilverPiece K P)}
    (h : DistinctSequences pieces) {k : K} {e : BronzeEvent K P} :
    silverEvent fns k pieces = some e ↔ IsRecordedNewest k pieces e := by
  have hheld : ∀ (rest : List (SilverPiece K P)), rest ⊆ pieces → ∀ held,
      writeEvents held (mergedEvents fns k rest) = heldEvent k held rest := by
    intro rest
    induction rest with
    | nil => exact fun _ _ ↦ rfl
    | cons piece rest ih =>
      intro hsub held
      obtain ⟨hpiece, hrest⟩ := List.cons_subset.1 hsub
      rw [mergedEvents, List.filterMap_cons, currentOf_eq_newestOf fns h hpiece, heldEvent,
        List.foldl_cons]
      rcases hnewest : piece.newestOf k with - | e
      · exact ih hrest held
      · exact ih hrest _
  rw [silverEvent, ← writeEvents_none, hheld pieces (List.Subset.refl _), heldEvent_none,
    newest_recorded_eq_some_iff h]

/-! ### A run of Silver steps -/

/-- A Silver without a commit. -/
def SilverLake.empty : SilverLake where
  tables _ := []
  histories _ := []

/-- The Silver steps of one table. -/
def silverSteps (fns : SparkFunctions) (clean : Cleaning) (t : SilverTable) (lake : SilverLake)
    (pieces : List (SilverPiece ℤ (SilverColumns t))) : Option SilverLake :=
  Runs.run (fun lake piece ↦ silverStep fns clean lake t piece) lake pieces

section Steps

variable (fns : SparkFunctions) (clean : Cleaning) {t : SilverTable}

/-- What one step leaves in its table. -/
theorem silverStep_spec (ht : t.hasChangeHistory = true) {lake : SilverLake}
    {piece : SilverPiece ℤ (SilverColumns t)} {rows : List (SilverRow ℤ (SilverColumns t))}
    (hmerge : mergePiece fns (clean t) (lake.currentRows t) piece = some rows) :
    ∃ lake', silverStep fns clean lake t piece = some lake' ∧ lake'.currentRows t = rows ∧
      lake'.history t = lake.history t ++ changeHistory fns t.name (clean t) piece.events := by
  refine ⟨_, by rw [silverStep, hmerge]; rfl, ?_, ?_⟩
  · show (((Function.update lake.tables t _) t).getLast?.map _).getD [] = rows
    rw [Function.update_self, List.getLast?_concat]
    rfl
  · show ((if t.hasChangeHistory then _ else lake.histories) t).flatten = _
    rw [if_pos ht, Function.update_self, List.flatten_concat]
    rfl

/-- **Silver steps of a table** merge their pieces and keep all events in the change history. -/
theorem silverSteps_spec (ht : t.hasChangeHistory = true)
    (pieces : List (SilverPiece ℤ (SilverColumns t))) (lake : SilverLake)
    {rows : List (SilverRow ℤ (SilverColumns t))}
    (hmerge : mergePieces fns (clean t) (lake.currentRows t) pieces = some rows) :
    ∃ lake', silverSteps fns clean t lake pieces = some lake' ∧ lake'.currentRows t = rows ∧
      lake'.history t = lake.history t ++
        changeHistory fns t.name (clean t) (pieces.flatMap SilverPiece.events) := by
  induction pieces generalizing lake with
  | nil => exact ⟨lake, rfl, Option.some.inj hmerge, by simp [changeHistory]⟩
  | cons piece rest ih =>
    rw [mergePieces, List.foldlM_cons] at hmerge
    obtain ⟨rows₁, hfirst, hrest⟩ := Option.bind_eq_some_iff.1 hmerge
    obtain ⟨lake₁, hstep, hrows₁, hhistory₁⟩ := silverStep_spec fns clean ht hfirst
    obtain ⟨lake₂, hsteps, hrows₂, hhistory₂⟩ := ih lake₁ (by rw [hrows₁]; exact hrest)
    refine ⟨lake₂, Runs.run_cons_eq_some.2 ⟨lake₁, hstep, hsteps⟩, hrows₂, ?_⟩
    rw [hhistory₂, hhistory₁, List.append_assoc, List.flatMap_cons, changeHistory, changeHistory,
      changeHistory, List.map_append]

end Steps

end LakehousePipeline
