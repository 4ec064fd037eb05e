import LakehousePipeline.Gold.Scd2Replay
import LakehousePipeline.Library.Echoes

/-!
# The SCD2 replay computes the versions of a change log

An entity's events are a change log in the sense of `Timeline`: an event leaves the entity with its
attribute hash, a delete leaves none. The flag, the running sum, the whole-version window and the
boundary join of the replay then amount to cutting that log into versions
(`replayPartition_eq_versions`), and everything about the rows in time follows from the general
facts about versions.

The recursion that carries the proof is `numberedFrom`: the flagged and numbered events after a
state `previous` and `number` versions.

## From windows to a recursion

The source computes a row in four passes, each over the whole partition:

1. the flag compares an event with the one before it and with the last non-delete hash before it
   (`isType2Start_iff`: together these two compare it with the state before it);
2. a running sum of the flags numbers the versions (`numberEvents_eq`: both passes are
   `numberedFrom none 0`);
3. Type-1 values are taken over the window of one version number, and are those of the members of
   the version (`map_event_filter_versionNumber`);
4. boundaries (starts and deletes) are joined back to the starts by event id, and give the event
   that closes a version (`head?_filter_boundary`).

Each of the passes is compared with the recursion for a log read from any state on, and only the
last theorem sets the state to that of a log that begins. Event ids have to be distinct for the join
of the fourth pass alone: with a repeated id a start would find the boundary of another event.

## From rows to what they show

`versionRow` puts the Type-2 values of the first event of a version beside the Type-1 values of all
its members. Two logs whose versions start with the same events and end with the same events show
the same rows as soon as their Type-1 values agree (`mapIdx_versionRow_eq`), which is how replays of
different logs are compared later.
-/

namespace LakehousePipeline

variable {A κ V : Type}

/-- What an event leaves behind: the attribute hash, or nothing after a delete. -/
def entityState (e : Scd2Event A κ V) : Option Text :=
  if e.operation = .delete then none else some e.attributeHash

/-- Only a delete leaves nothing. -/
@[simp] theorem entityState_eq_none {e : Scd2Event A κ V} :
    entityState e = none ↔ e.operation = .delete := by
  unfold entityState
  split <;> simp_all

/-- Any other event leaves its attribute hash. -/
theorem entityState_of_ne {e : Scd2Event A κ V} (h : e.operation ≠ .delete) :
    entityState e = some e.attributeHash :=
  if_neg h

/-- The row of a version. -/
def versionRow (fns : SparkFunctions) (number : ℕ) (v : Timeline.Version (Scd2Event A κ V)) :
    Scd2Row A κ V :=
  scd2Row fns v.start number (fun c ↦ Window.lastNonNull (fun e ↦ e.type1 c) v.members)
    (v.closedBy.map fun e ↦ e.eventTime) (v.closedBy.map fun e ↦ e.operation)

/-! ### The flag -/

/-- **A version starts where the entity exists in a state it was not in before.** The previous
operation matters because the last non-delete hash survives a delete. -/
theorem isType2Start_iff (before : List (Scd2Event A κ V)) (e : Scd2Event A κ V) :
    isType2Start before e = true ↔
      ¬(entityState e = none ∨ entityState e = Timeline.lastState entityState none before) := by
  rcases List.eq_nil_or_concat before with rfl | ⟨init, x, rfl⟩
  · simp [isType2Start, previousNonDeleteHash, Window.lastNonNull]
  · by_cases hx : x.operation = .delete
    · simp [isType2Start, previousOperation, Timeline.lastState, hx, entityState]
    · by_cases he : e.operation = .delete
      · simp [isType2Start, he]
      · simp [isType2Start, previousOperation, previousNonDeleteHash, Window.lastNonNull,
          Timeline.lastState, entityState, hx, he]

/-! ### The numbered events, by recursion -/

/-- The flagged and numbered events of a log read after `previous` and `number` versions. -/
def numberedFrom (previous : Option Text) (number : ℕ) :
    List (Scd2Event A κ V) → List (NumberedEvent A κ V)
  | [] => []
  | e :: rest =>
    if entityState e = none ∨ entityState e = previous then
      { event := e, isType2Start := false, versionNumber := number } ::
        numberedFrom (entityState e) number rest
    else
      { event := e, isType2Start := true, versionNumber := number + 1 } ::
        numberedFrom (entityState e) (number + 1) rest

/-- An event that starts no version: a delete, or one that leaves the state as it was. -/
theorem numberedFrom_cons_of_keep {previous : Option Text} {number : ℕ} {e : Scd2Event A κ V}
    (h : entityState e = none ∨ entityState e = previous) (rest : List (Scd2Event A κ V)) :
    numberedFrom previous number (e :: rest) =
      { event := e, isType2Start := false, versionNumber := number } ::
        numberedFrom (entityState e) number rest := by
  rw [numberedFrom, if_pos h]

/-- An event that starts a version raises the number. -/
theorem numberedFrom_cons_of_start {previous : Option Text} {number : ℕ} {e : Scd2Event A κ V}
    (h : ¬(entityState e = none ∨ entityState e = previous)) (rest : List (Scd2Event A κ V)) :
    numberedFrom previous number (e :: rest) =
      { event := e, isType2Start := true, versionNumber := number + 1 } ::
        numberedFrom (entityState e) (number + 1) rest := by
  rw [numberedFrom, if_neg h]

/-- **The two window passes are the recursion.** -/
theorem numberEvents_eq (log : List (Scd2Event A κ V)) :
    numberEvents log = numberedFrom none 0 log := by
  have hfrom : ∀ (rest before : List (Scd2Event A κ V)),
      Window.overFrom (fun before e _ ↦
        { event := e
          isType2Start := isType2Start before e
          versionNumber := (Window.overRows (fun earlier x _ ↦ isType2Start earlier x)
            (before ++ [e])).count true : NumberedEvent A κ V }) before rest =
      numberedFrom (Timeline.lastState entityState none before)
        ((Window.overRows (fun earlier x _ ↦ isType2Start earlier x) before).count true) rest := by
    intro rest
    induction rest with
    | nil => exact fun _ ↦ rfl
    | cons e rest ih =>
      intro before
      have hlast : Timeline.lastState entityState none (before ++ [e]) = entityState e := by
        simp [Timeline.lastState]
      rw [Window.overFrom_cons, ih, hlast]
      simp only [Window.overRows_concat, List.count_append]
      by_cases h : entityState e = none ∨
          entityState e = Timeline.lastState entityState none before
      · have hflag : isType2Start before e = false :=
          Bool.eq_false_iff.2 fun hstart ↦ (isType2Start_iff before e).1 hstart h
        simp only [numberedFrom_cons_of_keep h, hflag, List.count_singleton]
        rfl
      · have hflag : isType2Start before e = true := (isType2Start_iff before e).2 h
        simp only [numberedFrom_cons_of_start h, hflag, List.count_singleton]
        rfl
  exact hfrom log []

/-- Numbering keeps the events and their order. -/
@[simp] theorem map_event_numberedFrom (previous : Option Text) (number : ℕ)
    (log : List (Scd2Event A κ V)) :
    (numberedFrom previous number log).map (fun n ↦ n.event) = log := by
  induction log generalizing previous number with
  | nil => rfl
  | cons e rest ih =>
    by_cases h : entityState e = none ∨ entityState e = previous
    · rw [numberedFrom_cons_of_keep h, List.map_cons, ih]
    · rw [numberedFrom_cons_of_start h, List.map_cons, ih]

/-- Version numbers do not decrease, and a start is no delete and raises the number. -/
theorem versionNumber_of_mem_numberedFrom {previous : Option Text} {number : ℕ}
    {log : List (Scd2Event A κ V)} {n : NumberedEvent A κ V}
    (hn : n ∈ numberedFrom previous number log) :
    number ≤ n.versionNumber ∧
      (n.isType2Start = true → n.event.operation ≠ .delete ∧ number < n.versionNumber) := by
  induction log generalizing previous number with
  | nil => cases hn
  | cons e rest ih =>
    by_cases h : entityState e = none ∨ entityState e = previous
    · rw [numberedFrom_cons_of_keep h] at hn
      rcases List.mem_cons.1 hn with rfl | hn
      · exact ⟨le_rfl, fun hstart ↦ absurd hstart Bool.false_ne_true⟩
      · exact ih hn
    · rw [numberedFrom_cons_of_start h] at hn
      rcases List.mem_cons.1 hn with rfl | hn
      · exact ⟨Nat.le_succ _, fun _ ↦
          ⟨fun hdel ↦ h (Or.inl (entityState_eq_none.2 hdel)), Nat.lt_succ_self _⟩⟩
      · obtain ⟨hle, hstart⟩ := ih hn
        exact ⟨by omega, fun hs ↦ ⟨(hstart hs).1, by have := (hstart hs).2; omega⟩⟩

/-- The further events of the version that is open in state `previous`. -/
theorem map_event_filter_versionNumber {previous : Option Text} (hprev : previous ≠ none)
    (number : ℕ) (log : List (Scd2Event A κ V)) :
    (((numberedFrom previous number log).filter fun n ↦
        n.event.operation ≠ .delete ∧ n.versionNumber = number).map fun n ↦ n.event) =
      log.takeWhile fun e ↦ entityState e = previous := by
  -- after a delete the next version has the next number
  have hnone : ∀ log : List (Scd2Event A κ V),
      ((numberedFrom none number log).filter fun n ↦
        n.event.operation ≠ .delete ∧ n.versionNumber = number) = [] := by
    intro log
    induction log with
    | nil => rfl
    | cons e rest ih =>
      by_cases h : entityState e = none ∨ entityState e = none
      · have hdel : entityState e = none := h.elim id id
        rw [numberedFrom_cons_of_keep h, hdel, List.filter_cons_of_neg, ih]
        simp [entityState_eq_none.1 hdel]
      · rw [numberedFrom_cons_of_start h, List.filter_cons_of_neg (by simp)]
        refine List.filter_eq_nil_iff.2 fun n hn ↦ ?_
        have := (versionNumber_of_mem_numberedFrom hn).1
        simp only [decide_eq_true_eq, not_and]
        omega
  induction log with
  | nil => rfl
  | cons e rest ih =>
    -- the version goes on until a delete or another state
    by_cases hdel : entityState e = none
    · rw [numberedFrom_cons_of_keep (Or.inl hdel), hdel, List.filter_cons_of_neg, hnone,
        List.takeWhile_cons_of_neg]
      · rfl
      · simpa [hdel] using hprev.symm
      · simp [entityState_eq_none.1 hdel]
    · by_cases heq : entityState e = previous
      · rw [numberedFrom_cons_of_keep (Or.inr heq), heq, List.filter_cons_of_pos, List.map_cons, ih,
          List.takeWhile_cons_of_pos]
        · simpa using heq
        · simpa using hdel
      · rw [numberedFrom_cons_of_start (by simp [hdel, heq] : ¬(_ ∨ _)),
          List.filter_cons_of_neg (by simp), List.takeWhile_cons_of_neg (by simpa using heq),
          List.map_eq_nil_iff]
        refine List.filter_eq_nil_iff.2 fun n hn ↦ ?_
        have := (versionNumber_of_mem_numberedFrom hn).1
        simp only [decide_eq_true_eq, not_and]
        omega

/-- The next boundary after the version that is open in state `previous`. -/
theorem head?_filter_boundary {previous : Option Text} (hprev : previous ≠ none) (number : ℕ)
    (log : List (Scd2Event A κ V)) :
    (((numberedFrom previous number log).filter fun n ↦
        n.isType2Start ∨ n.event.operation = .delete).head?.map fun n ↦ n.event) =
      log.find? fun e ↦ entityState e ≠ previous := by
  induction log with
  | nil => rfl
  | cons e rest ih =>
    by_cases heq : entityState e = previous
    · have hop : e.operation ≠ .delete := fun hdel ↦
        hprev (heq ▸ entityState_eq_none.2 hdel)
      rw [numberedFrom_cons_of_keep (Or.inr heq), heq, List.filter_cons_of_neg (by simpa using hop),
        ih, List.find?_cons_of_neg (by simpa using heq)]
    · rw [List.find?_cons_of_pos (by simpa using heq)]
      by_cases hdel : entityState e = none
      · rw [numberedFrom_cons_of_keep (Or.inl hdel), List.filter_cons_of_pos]
        · rfl
        · simpa using hdel
      · rw [numberedFrom_cons_of_start (by simp [hdel, heq] : ¬(_ ∨ _)),
          List.filter_cons_of_pos (by simp)]
        rfl

/-! ### The rows are the versions -/

/-- Type-1 values are taken over the events of the version. -/
private theorem type1Value_of_start {before : List (NumberedEvent A κ V)} {number : ℕ}
    (hbefore : ∀ n ∈ before, n.versionNumber ≤ number) {e : Scd2Event A κ V}
    (he : entityState e ≠ none) (rest : List (Scd2Event A κ V)) (column : κ) :
    let start : NumberedEvent A κ V :=
      { event := e, isType2Start := true, versionNumber := number + 1 }
    type1Value (typedEvents (before ++ start :: numberedFrom (entityState e) (number + 1) rest))
        start column =
      Window.lastNonNull (fun x ↦ x.type1 column)
        (e :: rest.takeWhile fun x ↦ entityState x = entityState e) := by
  intro start
  have hop : e.operation ≠ .delete := fun hdel ↦ he (entityState_eq_none.2 hdel)
  have hmembers :
      (((before ++ start :: numberedFrom (entityState e) (number + 1) rest).filter fun n ↦
        n.event.operation ≠ .delete ∧ n.versionNumber = number + 1).map fun n ↦ n.event) =
      e :: rest.takeWhile fun x ↦ entityState x = entityState e := by
    rw [List.filter_append, List.filter_eq_nil_iff.2, List.nil_append, List.filter_cons_of_pos,
      List.map_cons, map_event_filter_versionNumber he]
    · simpa [start] using hop
    · intro n hn
      have := hbefore n hn
      simp only [decide_eq_true_eq, not_and]
      omega
  rw [← hmembers, Window.lastNonNull_map, type1Value, typedEvents, List.filter_filter]
  congr 1
  refine List.filter_congr fun n _ ↦ ?_
  by_cases hnum : n.versionNumber = number + 1 <;> simp [start, hnum]

/-- The boundary row of a version start holds the next boundary. -/
private theorem find?_boundaries_of_start {before : List (NumberedEvent A κ V)} (number : ℕ)
    {e : Scd2Event A κ V} (he : entityState e ≠ none) (rest : List (Scd2Event A κ V))
    (hid : ∀ n ∈ before, n.event.historyEventId ≠ e.historyEventId) :
    let start : NumberedEvent A κ V :=
      { event := e, isType2Start := true, versionNumber := number + 1 }
    let next := rest.find? fun x ↦ entityState x ≠ entityState e
    (boundaries (before ++ start :: numberedFrom (entityState e) (number + 1) rest)).find?
        (fun b ↦ e.historyEventId = b.historyEventId) =
      some
        { historyEventId := e.historyEventId
          nextEffectiveTo := next.map fun x ↦ x.eventTime
          nextOperation := next.map fun x ↦ x.operation } := by
  intro start next
  rw [boundaries, List.filter_append, List.filter_cons_of_pos (by simp [start]),
    Window.find?_overRows]
  · simp only [next, ← head?_filter_boundary he (number + 1) rest, Option.map_map]
    rfl
  · intro n hn _ _
    simpa using (hid n (List.mem_filter.1 hn).1).symm
  · simp [start]

/-- The row of a version start, with its boundary looked up. -/
def startRow (fns : SparkFunctions) (whole : List (NumberedEvent A κ V))
    (n : NumberedEvent A κ V) : Scd2Row A κ V :=
  let b := (boundaries whole).find? fun b ↦ n.event.historyEventId = b.historyEventId
  scd2Row fns n.event n.versionNumber (type1Value (typedEvents whole) n)
    (b.bind fun b ↦ b.nextEffectiveTo) (b.bind fun b ↦ b.nextOperation)

/-- The same for the window passes. -/
theorem map_event_numberEvents (log : List (Scd2Event A κ V)) :
    (numberEvents log).map (fun n ↦ n.event) = log := by
  rw [numberEvents_eq, map_event_numberedFrom]

/-- A boundary belongs to one event. -/
private theorem nodup_boundaryIds {log : List (Scd2Event A κ V)}
    (hids : (log.map fun e ↦ e.historyEventId).Nodup) :
    ((boundaries (numberEvents log)).map fun b ↦ b.historyEventId).Nodup := by
  have hmap : ((boundaries (numberEvents log)).map fun b ↦ b.historyEventId) =
      (((numberEvents log).filter fun n ↦ n.isType2Start ∨ n.event.operation = .delete).map
        fun n ↦ n.event.historyEventId) := by
    rw [boundaries, Window.overRows, Window.map_overFrom]
    exact Window.overFrom_of_map _ _ _
  rw [hmap]
  refine List.Nodup.sublist (List.filter_sublist.map _) ?_
  rwa [← map_event_numberEvents log, List.map_map] at hids

/-- The replay has a row for each version start. -/
private theorem replayPartition_eq_map_startRow (fns : SparkFunctions)
    {log : List (Scd2Event A κ V)} (hids : (log.map fun e ↦ e.historyEventId).Nodup) :
    replayPartition fns log =
      ((numberEvents log).filter fun n ↦ n.isType2Start).map (startRow fns (numberEvents log)) := by
  have hstarts : ((typedEvents (numberEvents log)).filter fun n ↦ n.isType2Start) =
      (numberEvents log).filter fun n ↦ n.isType2Start := by
    rw [typedEvents, List.filter_filter]
    refine List.filter_congr fun n hn ↦ ?_
    rw [numberEvents_eq] at hn
    have := (versionNumber_of_mem_numberedFrom hn).2
    cases hs : n.isType2Start <;> simp_all
  rw [replayPartition, hstarts, Relational.leftJoin_eq_map, List.map_map]
  · rfl
  · exact fun n _ ↦
      Relational.length_filter_eq_le_one (nodup_boundaryIds hids) n.event.historyEventId

/-- The version starts in the rest of a log are the versions of the rest. -/
private theorem map_startRow_numberedFrom (fns : SparkFunctions)
    {whole : List (NumberedEvent A κ V)}
    (hids : (whole.map fun n ↦ n.event.historyEventId).Nodup) (rest : List (Scd2Event A κ V)) :
    ∀ (previous : Option Text) (number : ℕ) (before : List (NumberedEvent A κ V)),
      whole = before ++ numberedFrom previous number rest →
      (∀ n ∈ before, n.versionNumber ≤ number) →
      ((numberedFrom previous number rest).filter fun n ↦ n.isType2Start).map
          (startRow fns whole) =
        (Timeline.versionsFrom entityState previous rest).mapIdx
          fun i v ↦ versionRow fns (number + i + 1) v := by
  induction rest with
  | nil => exact fun _ _ _ _ _ ↦ rfl
  | cons e rest ih =>
    intro previous number before hsplit hbefore
    by_cases h : entityState e = none ∨ entityState e = previous
    · rw [numberedFrom_cons_of_keep h] at hsplit ⊢
      rw [Timeline.versionsFrom_cons_of_keep h, List.filter_cons_of_neg (by simp),
        ih _ number (before ++ [_]) (by rw [hsplit, List.append_assoc]; rfl)]
      intro n hn
      rcases List.mem_append.1 hn with hn | hn
      · exact hbefore n hn
      · rw [List.mem_singleton.1 hn]
    · have he : entityState e ≠ none := fun hnone ↦ h (Or.inl hnone)
      rw [numberedFrom_cons_of_start h] at hsplit ⊢
      rw [Timeline.versionsFrom_cons_of_start h, List.filter_cons_of_pos (by simp), List.map_cons,
        List.mapIdx_cons, ih _ (number + 1) (before ++ [_])
          (by rw [hsplit, List.append_assoc]; rfl)]
      · congr 1
        · have hid : ∀ n ∈ before, n.event.historyEventId ≠ e.historyEventId := by
            intro n hn heq
            rw [hsplit, List.map_append, List.nodup_append] at hids
            exact hids.2.2 _ (List.mem_map_of_mem hn) _ (by simp) heq
          have htype1 := type1Value_of_start hbefore he rest
          have hboundary := find?_boundaries_of_start number he rest hid
          simp only [startRow, hsplit, hboundary, versionRow, Option.bind_some]
          congr 1
          exact funext htype1
        · refine congrArg (fun f ↦ List.mapIdx f _) (funext fun i ↦ funext fun v ↦ ?_)
          congr 1
          omega
      · intro n hn
        rcases List.mem_append.1 hn with hn | hn
        · exact (hbefore n hn).trans (Nat.le_succ _)
        · rw [List.mem_singleton.1 hn]

/-- **The replay of one entity computes the versions of its change log**, numbered from one. -/
theorem replayPartition_eq_versions (fns : SparkFunctions) {log : List (Scd2Event A κ V)}
    (hids : (log.map fun e ↦ e.historyEventId).Nodup) :
    replayPartition fns log =
      (Timeline.versions entityState log).mapIdx fun i v ↦ versionRow fns (i + 1) v := by
  have hnumbered : ((numberEvents log).map fun n ↦ n.event.historyEventId).Nodup := by
    rwa [← map_event_numberEvents log, List.map_map] at hids
  have hall := map_startRow_numberedFrom fns hnumbered log none 0 []
    (by rw [numberEvents_eq]; rfl) (by simp)
  rw [← numberEvents_eq] at hall
  rw [replayPartition_eq_map_startRow fns hids, hall]
  simp only [Nat.zero_add]
  rfl

/-! ### Versions that show the same -/

/-- The Type-1 columns are all a row shows of the events after the first. -/
theorem versionRow_eq_of_sameValues (fns : SparkFunctions) (number : ℕ)
    {v w : Timeline.Version (Scd2Event A κ V)} (h : v.SameValues (fun e ↦ e.type1) w) :
    versionRow fns number v = versionRow fns number w := by
  have htype1 : ∀ c, Window.lastNonNull (fun e ↦ e.type1 c) v.members =
      Window.lastNonNull (fun e ↦ e.type1 c) w.members :=
    fun c ↦ h.values fun type1 ↦ type1 c
  rw [versionRow, versionRow, h.start, h.closedBy, funext htype1]

/-- Rows of versions that show the same one by one. -/
theorem mapIdx_versionRow_eq (fns : SparkFunctions)
    {vs ws : List (Timeline.Version (Scd2Event A κ V))}
    (h : List.Forall₂ (Timeline.Version.SameValues fun e ↦ e.type1) vs ws) :
    vs.mapIdx (fun i v ↦ versionRow fns (i + 1) v) =
      ws.mapIdx fun i w ↦ versionRow fns (i + 1) w := by
  refine List.ext_getElem (by simp [h.length_eq]) fun i hi hi' ↦ ?_
  rw [List.length_mapIdx] at hi hi'
  rw [List.getElem_mapIdx, List.getElem_mapIdx]
  exact versionRow_eq_of_sameValues fns (i + 1) (h.get hi hi')

end LakehousePipeline
