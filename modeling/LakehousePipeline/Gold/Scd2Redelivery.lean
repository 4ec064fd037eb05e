import LakehousePipeline.Gold.Scd2Gate

/-!
# The replay of a history that is delivered more than once

The change history is appended to at least once: a row can stand there twice, and a source event can
come again under another history event id. Duplicates by id are dropped; a copy under a fresh id
goes through all windows. It ties with the event it copies in every order column but the last, so in
the sorted partition copies stand next to one another, and a version neither starts nor ends at a
copy (`Timeline.Repeats.versionsFrom`).

What the rows depend on are the contents of the events, the history event ids left out
(`replay_perm_of_sameContents`).
-/

namespace LakehousePipeline

variable {A κ V : Type}

/-- A copy of an event under another history event id. -/
def Scd2Event.withId (e : Scd2Event A κ V) (id : Text) : Scd2Event A κ V :=
  { e with historyEventId := id }

/-- An event without its history event id. -/
def Scd2Event.content (e : Scd2Event A κ V) : Scd2Event A κ V :=
  e.withId []

/-- What a delivery adds to a list of events, or does to its order. -/
inductive Redelivers : List (Scd2Event A κ V) → List (Scd2Event A κ V) → Prop
  /-- The events come in another order. -/
  | perm {events more : List (Scd2Event A κ V)} : events.Perm more → Redelivers events more
  /-- An event is repeated as is. -/
  | again {events : List (Scd2Event A κ V)} {e : Scd2Event A κ V} : e ∈ events →
      Redelivers events (e :: events)
  /-- An event is copied under a fresh history event id. -/
  | copy {events : List (Scd2Event A κ V)} {e : Scd2Event A κ V} {id : Text} : e ∈ events →
      (∀ x ∈ events, x.historyEventId ≠ id) → Redelivers events (e.withId id :: events)

/-- **Order tuples and ids tell source events apart.** -/
structure TellsApart (events : List (Scd2Event A κ V)) : Prop where
  /-- Events of one entity with the same order tuple are copies of one source event. -/
  order : ∀ a ∈ events, ∀ b ∈ events, a.sourceKey = b.sourceKey → a.eventTime = b.eventTime →
    a.order = b.order → a.content = b.content
  /-- Events with the same history event id are one event. -/
  id : ∀ a ∈ events, ∀ b ∈ events, a.historyEventId = b.historyEventId → a = b

/-- Two lists have the same events, up to history event ids. -/
def SameContents (events more : List (Scd2Event A κ V)) : Prop :=
  ∀ c, (∃ e ∈ events, e.content = c) ↔ ∃ e ∈ more, e.content = c

@[simp] theorem content_withId (e : Scd2Event A κ V) (id : Text) :
    (e.withId id).content = e.content := rfl

theorem orderKey_injective {a b : OrderFields} (h : a.key = b.key) : a = b := by
  rcases a with ⟨a1, a2, a3, a4, a5, a6⟩
  rcases b with ⟨b1, b2, b3, b4, b5, b6⟩
  have hcolumns : (a1, a2, a3, a4, a5, a6) = (b1, b2, b3, b4, b5, b6) := h
  simpa using hcolumns

/-! ### One delivery -/

/-- What is added has the content of an event that was there. -/
theorem SameContents.cons {events : List (Scd2Event A κ V)} {e x : Scd2Event A κ V}
    (he : e ∈ events) (h : x.content = e.content) : SameContents events (x :: events) := by
  intro c
  constructor
  · rintro ⟨y, hy, rfl⟩
    exact ⟨y, List.mem_cons_of_mem _ hy, rfl⟩
  · rintro ⟨y, hy, rfl⟩
    rcases List.mem_cons.1 hy with rfl | hy
    · exact ⟨e, he, h.symm⟩
    · exact ⟨y, hy, rfl⟩

/-- **A delivery adds no content**, and order tuples and ids still tell source events apart. -/
theorem Redelivers.spec {events more : List (Scd2Event A κ V)} (h : Redelivers events more)
    (hapart : TellsApart events) : SameContents events more ∧ TellsApart more := by
  cases h with
  | perm hperm =>
    refine ⟨fun c ↦ ?_, fun a ha b hb ↦ ?_, fun a ha b hb ↦ ?_⟩
    · simp only [hperm.mem_iff]
    · exact hapart.order a (hperm.mem_iff.2 ha) b (hperm.mem_iff.2 hb)
    · exact hapart.id a (hperm.mem_iff.2 ha) b (hperm.mem_iff.2 hb)
  | @again e he =>
    have hmem : ∀ x ∈ e :: events, x ∈ events := fun x hx ↦ by
      rcases List.mem_cons.1 hx with rfl | hx
      · exact he
      · exact hx
    exact ⟨SameContents.cons he rfl, fun a ha b hb ↦ hapart.order a (hmem a ha) b (hmem b hb),
      fun a ha b hb ↦ hapart.id a (hmem a ha) b (hmem b hb)⟩
  | @copy e id he hfresh =>
    refine ⟨SameContents.cons he rfl, fun a ha b hb ↦ ?_, fun a ha b hb hid ↦ ?_⟩
    · rcases List.mem_cons.1 ha with rfl | ha
      · rcases List.mem_cons.1 hb with rfl | hb
        · exact fun _ _ _ ↦ rfl
        · exact hapart.order e he b hb
      · rcases List.mem_cons.1 hb with rfl | hb
        · exact hapart.order a ha e he
        · exact hapart.order a ha b hb
    · rcases List.mem_cons.1 ha with rfl | ha
      · rcases List.mem_cons.1 hb with rfl | hb
        · rfl
        · exact absurd hid.symm (hfresh b hb)
      · rcases List.mem_cons.1 hb with rfl | hb
        · exact absurd hid (hfresh a ha)
        · exact hapart.id a ha b hb hid

/-! ### The rows depend on the contents -/

/-- The order of contents: the order of events without the history event id. -/
def contentOrder (e : Scd2Event A κ V) : Timestamp ×ₗ OrderKey :=
  toLex (e.eventTime, e.order.key)

theorem contentOrder_le {a b : Scd2Event A κ V} (h : eventOrder a ≤ eventOrder b) :
    contentOrder a ≤ contentOrder b := by
  rw [contentOrder, contentOrder, Prod.Lex.toLex_le_toLex]
  rcases Prod.Lex.toLex_le_toLex.1 h with hlt | ⟨heq, hle⟩
  · exact Or.inl hlt
  · refine Or.inr ⟨heq, ?_⟩
    rcases Prod.Lex.toLex_le_toLex.1 hle with hlt | ⟨heq, -⟩
    · exact hlt.le
    · exact heq.le

/-- The row of a version shows no history event id. -/
theorem versionRow_map_content (fns : SparkFunctions) (number : ℕ)
    (v : Timeline.Version (Scd2Event A κ V)) :
    versionRow fns number (v.map Scd2Event.content) = versionRow fns number v := by
  have htype1 : ∀ c, Window.lastNonNull (fun e ↦ e.type1 c) (v.members.map Scd2Event.content) =
      Window.lastNonNull (fun e ↦ e.type1 c) v.members := fun c ↦ Window.lastNonNull_map _ _ _
  simp only [versionRow, Timeline.Version.map, htype1, Option.map_map]
  rfl

/-- **The rows of an entity depend on the contents of its events.** -/
theorem replayPartition_congr (fns : SparkFunctions) {log more : List (Scd2Event A κ V)}
    (hlogIds : (log.map fun e ↦ e.historyEventId).Nodup)
    (hmoreIds : (more.map fun e ↦ e.historyEventId).Nodup)
    (hlog : log.Pairwise fun a b ↦ eventOrder a ≤ eventOrder b)
    (hmore : more.Pairwise fun a b ↦ eventOrder a ≤ eventOrder b)
    (hcopies : ∀ a ∈ log, ∀ b ∈ log, contentOrder a = contentOrder b → a.content = b.content)
    (hsame : SameContents log more) : replayPartition fns log = replayPartition fns more := by
  classical
  have hrows : ∀ events : List (Scd2Event A κ V),
      (Timeline.versions entityState events).mapIdx (fun i v ↦ versionRow fns (i + 1) v) =
        (Timeline.versions entityState (events.map Scd2Event.content)).mapIdx
          fun i v ↦ versionRow fns (i + 1) v := by
    intro events
    have hmap : Timeline.versions entityState (events.map Scd2Event.content) =
        (Timeline.versions entityState events).map (Timeline.Version.map Scd2Event.content) :=
      Timeline.versionsFrom_map (fun _ ↦ rfl) none events
    rw [hmap]
    refine List.ext_getElem (by simp) fun i _ _ ↦ ?_
    rw [List.getElem_mapIdx, List.getElem_mapIdx, List.getElem_map, versionRow_map_content]
  have hcontents : ∀ events : List (Scd2Event A κ V),
      (events.Pairwise fun a b ↦ eventOrder a ≤ eventOrder b) →
        (events.map Scd2Event.content).Pairwise fun a b ↦ contentOrder a ≤ contentOrder b := by
    intro events hsorted
    rw [List.pairwise_map]
    exact hsorted.imp contentOrder_le
  have hmem : ∀ c, c ∈ log.map Scd2Event.content ↔ c ∈ more.map Scd2Event.content := fun c ↦ by
    rw [List.mem_map, List.mem_map]
    exact hsame c
  have hties : ∀ a ∈ log.map Scd2Event.content, ∀ b ∈ log.map Scd2Event.content,
      contentOrder a = contentOrder b → a = b := by
    intro a ha b hb h
    obtain ⟨x, hx, rfl⟩ := List.mem_map.1 ha
    obtain ⟨y, hy, rfl⟩ := List.mem_map.1 hb
    exact hcopies x hx y hy h
  -- both logs repeat the events of one log in place
  have hdedup := Timeline.dedup_eq_of_sorted (hcontents log hlog) (hcontents more hmore) hties hmem
  have hlogRepeats := Timeline.repeats_dedup (hcontents log hlog) hties
  have hmoreRepeats := Timeline.repeats_dedup (hcontents more hmore) fun a ha b hb ↦
    hties a ((hmem a).2 ha) b ((hmem b).2 hb)
  have hlogRows := mapIdx_versionRow_eq fns
    ((hlogRepeats.versionsFrom entityState none).imp fun _ _ h ↦ h.sameValues _)
  have hmoreRows := mapIdx_versionRow_eq fns
    ((hmoreRepeats.versionsFrom entityState none).imp fun _ _ h ↦ h.sameValues _)
  rw [replayPartition_eq_versions fns hlogIds, replayPartition_eq_versions fns hmoreIds, hrows log,
    hrows more]
  rw [hdedup] at hlogRows
  exact hlogRows.symm.trans hmoreRows

/-- What is left of an entity after the duplicates by id are dropped. -/
theorem mem_partition {events : List (Scd2Event A κ V)} (hapart : TellsApart events)
    {member : Option ℤ} {e : Scd2Event A κ V} :
    e ∈ (Relational.dropDuplicatesOn (fun e ↦ e.historyEventId)
        (events.filter fun e ↦ e.sourceKey.isSome)).filter (fun e ↦ e.sourceKey = member) ↔
      e ∈ events ∧ e.sourceKey.isSome = true ∧ e.sourceKey = member := by
  rw [List.mem_filter, Relational.mem_dropDuplicatesOn_iff, List.mem_filter, decide_eq_true_eq,
    and_assoc]
  intro a ha b hb hid
  exact hapart.id a (List.mem_filter.1 ha).1 b (List.mem_filter.1 hb).1 hid

/-- **The rows depend on the contents of the events.** -/
theorem replay_perm_of_sameContents (fns : SparkFunctions) {events more : List (Scd2Event A κ V)}
    (hapart : TellsApart events) (hapart' : TellsApart more) (hsame : SameContents events more) :
    (replaySingleEntityScd2 fns events).Perm (replaySingleEntityScd2 fns more) := by
  refine Window.perm_of_filter_perm (fun row : Scd2Row A κ V ↦ row.sourceKey) fun member ↦ ?_
  rw [filter_replay, filter_replay]
  refine List.Perm.of_eq (replayPartition_congr fns (nodup_historyEventId_partition events member)
    (nodup_historyEventId_partition more member) (sortEvents_pairwise _) (sortEvents_pairwise _)
    ?_ fun c ↦ ?_)
  · intro a ha b hb h
    rw [mem_sortEvents, mem_partition hapart] at ha hb
    have htime : a.eventTime = b.eventTime :=
      congrArg (fun p : Timestamp ×ₗ OrderKey ↦ (ofLex p).1) h
    have horder : a.order.key = b.order.key :=
      congrArg (fun p : Timestamp ×ₗ OrderKey ↦ (ofLex p).2) h
    exact hapart.order a ha.1 b hb.1 (ha.2.2.trans hb.2.2.symm) htime (orderKey_injective horder)
  · have hside : ∀ {xs ys : List (Scd2Event A κ V)}, TellsApart xs → TellsApart ys →
        SameContents xs ys → ∀ e ∈ xs, e.sourceKey.isSome = true ∧ e.sourceKey = member →
          ∃ x, (x ∈ ys ∧ x.sourceKey.isSome = true ∧ x.sourceKey = member) ∧
            x.content = e.content := by
      intro xs ys _ _ hxy e he hkey
      obtain ⟨x, hx, hcontent⟩ := (hxy e.content).1 ⟨e, he, rfl⟩
      have hsource : x.content.sourceKey = e.content.sourceKey := by rw [hcontent]
      have hkey' : x.sourceKey = member := hsource.trans hkey.2
      exact ⟨x, ⟨hx, by rw [hkey', ← hkey.2]; exact hkey.1, hkey'⟩, hcontent⟩
    simp only [mem_sortEvents, mem_partition hapart, mem_partition hapart']
    constructor
    · rintro ⟨e, ⟨he, hkey⟩, rfl⟩
      exact hside hapart hapart' hsame e he hkey
    · rintro ⟨e, ⟨he, hkey⟩, rfl⟩
      exact hside hapart' hapart (fun c ↦ (hsame c).symm) e he hkey

/-- **The replay tolerates a history that is delivered more than once**: in another order, with rows
repeated as they are, with events of any kind copied under fresh ids, any number of times. -/
theorem replay_perm_of_redelivers (fns : SparkFunctions) {events more : List (Scd2Event A κ V)}
    (hapart : TellsApart events) (h : Relation.ReflTransGen Redelivers events more) :
    (replaySingleEntityScd2 fns events).Perm (replaySingleEntityScd2 fns more) := by
  have hall : SameContents events more ∧ TellsApart more := by
    induction h with
    | refl => exact ⟨fun _ ↦ Iff.rfl, hapart⟩
    | tail _ hstep ih =>
      obtain ⟨hsame, hapart'⟩ := hstep.spec ih.2
      exact ⟨fun c ↦ (ih.1 c).trans (hsame c), hapart'⟩
  exact replay_perm_of_sameContents fns hapart hall.2 hall.1

/-- A shop that is opened, renamed and closed. -/
def closedShop : List (Scd2Event Unit Unit ℤ) :=
  let event (time : Timestamp) (operation : Operation) (id : Char) : Scd2Event Unit Unit ℤ :=
    { sourceKey := some 7
      attributes := ()
      attributeHash := [id]
      type1 := fun _ ↦ some time
      initialEffectiveFrom := some 5
      eventTime := time
      operation := operation
      historyEventId := [id]
      order := ⟨none, some 1, none, none, none, none⟩ }
  [event 10 .insert 'a', event 20 .update 'b', event 30 .delete 'c']

/-- Its events come backwards, the delete in two copies and the first event twice. -/
theorem replay_perm_of_redelivers_closedShop :
    (replaySingleEntityScd2 SparkFunctions.plain closedShop).Perm
      (replaySingleEntityScd2 SparkFunctions.plain
        (closedShop[0] :: closedShop[2].withId ['z'] :: closedShop.reverse)) := by
  refine replay_perm_of_redelivers SparkFunctions.plain ⟨fun a ha b hb _ htime _ ↦ ?_,
    fun a ha b hb hid ↦ ?_⟩ ?_
  · rw [List.inj_on_of_nodup_map (f := fun e ↦ e.eventTime) (by decide) ha hb htime]
  · exact List.inj_on_of_nodup_map (f := fun e ↦ e.historyEventId) (by decide) ha hb hid
  · have hreverse : Redelivers closedShop closedShop.reverse :=
      .perm (List.reverse_perm closedShop).symm
    have hcopy : Redelivers closedShop.reverse (closedShop[2].withId ['z'] :: closedShop.reverse) :=
      .copy (List.mem_reverse.2 (List.getElem_mem _)) (by decide)
    have hagain : Redelivers (closedShop[2].withId ['z'] :: closedShop.reverse)
        (closedShop[0] :: closedShop[2].withId ['z'] :: closedShop.reverse) :=
      .again (List.mem_cons_of_mem _ (List.mem_reverse.2 (List.getElem_mem _)))
    exact ((Relation.ReflTransGen.single hreverse).tail hcopy).tail hagain

end LakehousePipeline
