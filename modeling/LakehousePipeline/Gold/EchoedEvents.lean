import LakehousePipeline.Gold.ScopedReplay

/-!
# Events a dimension shows nothing of

Batch and CDC see the same source event, and an update may touch columns that no dimension has. Such
an event leaves its entity with the attributes and the Type-1 values it finds: it is an echo of the
event before it (`IsEcho`). The replay of a history shows nothing of its echoes, wherever they come
in the order (`replay_eq_of_echoes`), so an incremental run may leave an entity alone that has had
only echoes.
-/

namespace LakehousePipeline

variable {A κ V : Type}

/-- The event before another in the log the replay goes through. -/
def previousEvent (events : List (Scd2Event A κ V)) (e : Scd2Event A κ V) :
    Option (Scd2Event A κ V) :=
  ((historyLog events).takeWhile fun x ↦ eventOrder x < eventOrder e).getLast?

/-- **The event is an echo** of the one before it: it leaves the entity as that one does, with the
same Type-1 values. The first event is one if it is a delete. -/
def IsEcho (events : List (Scd2Event A κ V)) (e : Scd2Event A κ V) : Prop :=
  entityState e = (previousEvent events e).bind entityState ∧
    (entityState e ≠ none → (previousEvent events e).map (fun x ↦ x.type1) = some e.type1)

variable {fns : SparkFunctions} {events more : List (Scd2Event A κ V)}

theorem previousEvent_of_split {pre post : List (Scd2Event A κ V)} {x : Scd2Event A κ V}
    (h : historyLog events = pre ++ x :: post) : previousEvent events x = pre.getLast? := by
  have hsorted := historyLog_pairwise events
  rw [h, List.pairwise_append] at hsorted
  have hbefore : ∀ y ∈ pre, decide (eventOrder y < eventOrder x) = true :=
    fun y hy ↦ decide_eq_true (hsorted.2.2 y hy x List.mem_cons_self)
  rw [previousEvent, h, List.takeWhile_append_of_pos hbefore,
    List.takeWhile_cons_of_neg (by simp), List.append_nil]

/-- **The replay of an entity shows nothing of its echoes.** -/
theorem replay_eq_of_echoes {k : ℤ} (hids : IdsApart more) (hkey : ∀ e ∈ more, e.sourceKey = some k)
    (hsub : events ⊆ more) (hecho : ∀ e ∈ more, e ∉ events → IsEcho more e) :
    replaySingleEntityScd2 fns events = replaySingleEntityScd2 fns more := by
  classical
  have hidsEvents : IdsApart events := hids.mono hsub
  -- the shorter log is the longer one without echoes
  have hlog : historyLog events = (historyLog more).filter fun e ↦ e ∈ events := by
    refine (historyLog_pairwise events).eq_of_mem_iff
      ((historyLog_pairwise more).sublist List.filter_sublist) fun {e} ↦ ?_
    rw [mem_historyLog hidsEvents, List.mem_filter, mem_historyLog hids, decide_eq_true_eq]
    exact (and_iff_right_of_imp fun he ↦ hsub he).symm
  have hechoes : Timeline.Echoes entityState (fun e : Scd2Event A κ V ↦ e.type1) none none
      (historyLog events) (historyLog more) := by
    rw [hlog]
    refine Timeline.echoes_filter fun pre x post hsplit hx ↦ ?_
    have hxmore : x ∈ more := by
      rw [← mem_historyLog hids, hsplit]
      exact List.mem_append_right _ List.mem_cons_self
    obtain ⟨hstate, htype1⟩ := hecho x hxmore (of_decide_eq_false hx)
    rw [previousEvent_of_split hsplit] at hstate htype1
    refine ⟨hstate.trans ?_, fun hexists ↦ ?_⟩
    · rw [Timeline.lastState]
      rcases pre.getLast? with - | y
      · rfl
      · rfl
    · rw [Option.or_none]
      exact (htype1 hexists).symm
  rw [replaySingleEntityScd2_eq_versions fns fun e he ↦ hkey e (hsub he),
    replaySingleEntityScd2_eq_versions fns hkey]
  exact mapIdx_versionRow_eq fns hechoes.versionsFrom

/-! ### Histories with new rows -/

section Rows

variable {P : Type} {event : HistoryRow ℤ P → Scd2Event A κ V}
  {history₀ newRows : List (HistoryRow ℤ P)} (hevent : ∀ row, (event row).sourceKey = some row.key)
  (hids : IdsApart ((history₀ ++ newRows).map event))

include hevent hids

/-- An entity with no new events but echoes has the versions it had. -/
theorem replay_eventsOfKey_eq {k : ℤ} (hecho : ∀ row ∈ newRows, row.key = k →
    IsEcho (eventsOfKey ((history₀ ++ newRows).map event) k) (event row)) :
    replaySingleEntityScd2 fns (eventsOfKey (history₀.map event) k) =
      replaySingleEntityScd2 fns (eventsOfKey ((history₀ ++ newRows).map event) k) := by
  have hmem : ∀ {history : List (HistoryRow ℤ P)} {e : Scd2Event A κ V},
      e ∈ eventsOfKey (history.map event) k ↔ ∃ row ∈ history, row.key = k ∧ event row = e := by
    intro history e
    rw [eventsOfKey_map hevent, List.mem_map]
    simp only [List.mem_filter, decide_eq_true_eq, and_assoc]
  refine replay_eq_of_echoes (hids.eventsOfKey k) (fun e he ↦ (mem_eventsOfKey.1 he).2)
    (fun e he ↦ ?_) fun e he hold ↦ ?_
  · obtain ⟨row, hrow, hkey, rfl⟩ := hmem.1 he
    exact hmem.2 ⟨row, List.mem_append_left _ hrow, hkey, rfl⟩
  · obtain ⟨row, hrow, hkey, rfl⟩ := hmem.1 he
    rcases List.mem_append.1 hrow with hrow | hrow
    · exact absurd (hmem.2 ⟨row, hrow, hkey, rfl⟩) hold
    · exact hecho row hrow hkey

/-- **A dimension shows nothing of new rows that are echoes.** -/
theorem perm_replay_of_echoes (hecho : ∀ row ∈ newRows,
    IsEcho (eventsOfKey ((history₀ ++ newRows).map event) row.key) (event row)) :
    (replaySingleEntityScd2 fns (history₀.map event)).Perm
      (replaySingleEntityScd2 fns ((history₀ ++ newRows).map event)) := by
  have hids₀ : IdsApart (history₀.map event) :=
    hids.mono (List.map_subset _ (List.subset_append_left _ _))
  refine Window.perm_of_filter_perm (fun row : Scd2Row A κ V ↦ row.sourceKey) fun member ↦ ?_
  rcases member with - | k
  · have hnone : ∀ events : List (Scd2Event A κ V),
        ((replaySingleEntityScd2 fns events).filter fun row ↦ row.sourceKey = none) = [] := by
      refine fun events ↦ List.filter_eq_nil_iff.2 fun row hrow hkey ↦ ?_
      obtain ⟨k, hk⟩ := exists_sourceKey_of_mem_replay hrow
      rw [hk] at hkey
      exact absurd (of_decide_eq_true hkey) (Option.some_ne_none k)
    rw [hnone, hnone]
  · rw [filter_replay_eq hids₀, filter_replay_eq hids,
      replay_eventsOfKey_eq hevent hids fun row hrow hkey ↦ hkey ▸ hecho row hrow]

variable (event) in
/-- **The merge of the replayed entities leaves the full replay**, if the entities that are not
replayed have had only echoes. -/
theorem exists_upsert_rows [DecidableEq (Scd2Row A κ V)] (unknown : A) {ids : List ℤ}
    {existing : List (Scd2Row A κ V)}
    (hcover : ∀ row ∈ newRows, row.key ∈ ids ∨
      IsEcho (eventsOfKey ((history₀ ++ newRows).map event) row.key) (event row))
    (hexisting : existing.Perm
      (unknownMember unknown :: replaySingleEntityScd2 fns (history₀.map event)))
    (hkeys₀ : ((unknownMember unknown :: replaySingleEntityScd2 fns (history₀.map event)).map
      fun row ↦ row.surrogateKey).Nodup)
    (hkeys : ((unknownMember unknown ::
      replaySingleEntityScd2 fns ((history₀ ++ newRows).map event)).map
        fun row ↦ row.surrogateKey).Nodup) :
    ∃ result, upsertTable (keyedColumns fun row : Scd2Row A κ V ↦ row.surrogateKey)
        (scopeOptions (staleKeys (fun row ↦ row.sourceKey) existing
          (replaySingleEntityScd2 fns
            ((filterIds (fun row ↦ some row.key) ids (history₀ ++ newRows)).map event)) ids) true)
        (some existing)
        (replaySingleEntityScd2 fns
          ((filterIds (fun row ↦ some row.key) ids (history₀ ++ newRows)).map event)) =
          some result ∧ result.rows.Perm (unknownMember unknown ::
            replaySingleEntityScd2 fns ((history₀ ++ newRows).map event)) := by
  have hids₀ : IdsApart (history₀.map event) :=
    hids.mono (List.map_subset _ (List.subset_append_left _ _))
  refine (scopedReplay_of_rows hevent hids₀ hids fun k hk ↦ ?_).perm_upsertReplayed unknown
    (fun _ hrow ↦ exists_sourceKey_of_mem_replay hrow)
    (fun _ hrow ↦ exists_sourceKey_of_mem_replay hrow) rfl hexisting hkeys₀ hkeys
  refine replay_eventsOfKey_eq hevent hids fun row hrow hkey ↦ ?_
  exact hkey ▸ (hcover row hrow).resolve_left fun hin ↦ hk (hkey ▸ hin)

end Rows

end LakehousePipeline
