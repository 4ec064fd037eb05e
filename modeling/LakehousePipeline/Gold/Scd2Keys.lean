import LakehousePipeline.Gold.Scd2Gate

/-!
# The surrogate keys of a replay

The surrogate key of a version is hashed from the entity, the instant the version begins and the
attribute hash. Its number and the event it starts with do not enter, so two versions of one entity
have one key when the entity leaves its attributes and takes them up again at the instant it had
them: two changes back and forth in one transaction are enough. Only a first version that is pulled
back to the creation of its row begins at another instant.

Apart from hash collisions nothing else gives two rows one key (`nodup_surrogateKey_iff`).

## Which rows can share a key

The key is a hash of a text made of three columns (`Scd2Row.keyText`). `HashesApart` keeps the
hashes of different texts apart, for the rows of one replay and the unknown member only; what is
left is when two rows have one text (`eq_of_keyText_eq`).

Rows of two entities have not, as the entity is one of the columns. For two rows of one entity it is
a question of its versions. Those follow one another in time, so two that begin at one instant have
only versions between them that are empty, and the entity has left its attributes and taken them up
again at this instant (`ReentersAtOnce`). `pairwise_replayPartition_iff` says so for the log of an
entity, and `versionBegin_le` covers the first version, which may begin before its event.
-/

namespace LakehousePipeline

variable {A κ V : Type}

/-- The text the surrogate key of a row is hashed from. -/
def Scd2Row.keyText (fns : SparkFunctions) (row : Scd2Row A κ V) : Text :=
  concatWs hashSeparator
    [row.sourceKey.map fns.castInt, some (fns.castTimestamp row.effectiveFrom), row.attributeHash]

/-- **The key hash keeps the texts of the rows apart**, and apart from the key of the unknown
member. -/
structure HashesApart (fns : SparkFunctions) (includeUnknown : Bool) (rows : List (Scd2Row A κ V)) :
    Prop where
  /-- No two texts collide. -/
  collision : ∀ v ∈ rows, ∀ w ∈ rows,
    positiveHashKey fns (v.keyText fns) = positiveHashKey fns (w.keyText fns) →
      v.keyText fns = w.keyText fns
  /-- No text has the key of the unknown member. -/
  unknown : includeUnknown = true → ∀ v ∈ rows, positiveHashKey fns (v.keyText fns) ≠ 0

/-- The entity takes up, at the instant a version of it began, the attributes of that version. -/
def ReentersAtOnce (events : List (Scd2Event A κ V)) : Prop :=
  ∃ s s', IsVersionStart events s ∧ IsVersionStart events s' ∧ eventOrder s < eventOrder s' ∧
    s.attributeHash = s'.attributeHash ∧ s.eventTime = s'.eventTime ∧
      versionBegin events s = s.eventTime

/-! ### One entity -/

section Entity

variable {fns : SparkFunctions} {log : List (Scd2Event A κ V)}

/-- The key of a row. -/
theorem surrogateKey_of_mem_replayPartition (hids : (log.map fun e ↦ e.historyEventId).Nodup)
    {row : Scd2Row A κ V} (hrow : row ∈ replayPartition fns log) :
    row.surrogateKey = positiveHashKey fns (row.keyText fns) := by
  rw [replayPartition_eq_versions fns hids] at hrow
  obtain ⟨i, hi, rfl⟩ := List.mem_mapIdx.1 hrow
  rfl

/-- A version begins with its event, or before it when it is pulled back. -/
theorem versionBegin_le (events : List (Scd2Event A κ V)) (s : Scd2Event A κ V) :
    versionBegin events s ≤ s.eventTime := by
  rw [versionBegin]
  split_ifs
  · exact le_rfl
  · exact le_rfl
  · exact leastOf_le _ _

/-- **Two rows of an entity begin at one instant with one hash exactly if the entity reenters.** -/
theorem pairwise_replayPartition_iff {events : List (Scd2Event A κ V)}
    (hmem : ∀ e, e ∈ log ↔ e ∈ events) (hids : (log.map fun e ↦ e.historyEventId).Nodup)
    (hsorted : log.Pairwise fun a b ↦ eventOrder a < eventOrder b) :
    ((replayPartition fns log).Pairwise fun v w ↦
        ¬(v.effectiveFrom = w.effectiveFrom ∧ v.attributeHash = w.attributeHash)) ↔
      ¬ReentersAtOnce events := by
  set vs := Timeline.versions entityState log with hvs
  have hstart : ∀ s, IsVersionStart events s ↔ s ∈ vs.map fun v ↦ v.start :=
    isVersionStart_iff hmem hsorted
  have hstarts : vs.Pairwise fun v w ↦ eventOrder v.start < eventOrder w.start := by
    have hsub := hsorted.sublist (Timeline.map_start_sublist entityState none log)
    rwa [List.pairwise_map] at hsub
  have hop : ∀ v ∈ vs, v.start ∈ events ∧ v.start.operation ≠ .delete := fun v hv ↦ by
    have hs := (hstart v.start).2 (List.mem_map_of_mem hv)
    exact ⟨hs.1, hs.2.1⟩
  rw [replayPartition_eq_versions fns hids, List.pairwise_iff_getElem]
  constructor
  · rintro hrows ⟨s, s', hs, hs', hlt, hhash, htime, hbegin⟩
    obtain ⟨v, hv, rfl⟩ := List.mem_map.1 ((hstart s).1 hs)
    obtain ⟨w, hw, rfl⟩ := List.mem_map.1 ((hstart s').1 hs')
    obtain ⟨i, hi, rfl⟩ := List.getElem_of_mem hv
    obtain ⟨j, hj, rfl⟩ := List.getElem_of_mem hw
    have hij : i < j := by
      by_contra hge
      rcases Nat.lt_or_eq_of_le (not_lt.1 hge) with hji | rfl
      · exact absurd (List.pairwise_iff_getElem.1 hstarts j i hj hi hji) hlt.not_gt
      · exact absurd hlt (lt_irrefl _)
    refine hrows i j (by simpa using hi) (by simpa using hj) hij ?_
    rw [List.getElem_mapIdx, List.getElem_mapIdx]
    have hfrom : effectiveFrom vs[i].start (i + 1) = effectiveFrom vs[j].start (j + 1) := by
      rw [effectiveFrom_eq_versionBegin hmem hsorted (List.getElem?_eq_getElem hi),
        effectiveFrom_of_ne_one _ (by omega)]
      exact hbegin.trans htime
    exact ⟨hfrom, congrArg some hhash⟩
  · rintro hno i j hi hj hij ⟨hfrom, hhash⟩
    rw [List.length_mapIdx] at hi hj
    rw [List.getElem_mapIdx, List.getElem_mapIdx] at hfrom hhash
    have hfrom : effectiveFrom vs[i].start (i + 1) = effectiveFrom vs[j].start (j + 1) := hfrom
    rw [effectiveFrom_eq_versionBegin hmem hsorted (List.getElem?_eq_getElem hi),
      effectiveFrom_of_ne_one _ (by omega)] at hfrom
    have hlt := List.pairwise_iff_getElem.1 hstarts i j hi hj hij
    -- the later version begins with its event, so neither is pulled back
    have hle : vs[i].start.eventTime ≤ vs[j].start.eventTime := eventTime_le_of_eventOrder_le hlt.le
    have hbegin : versionBegin events vs[i].start ≤ vs[i].start.eventTime := versionBegin_le _ _
    refine hno ⟨vs[i].start, vs[j].start, (hstart _).2 (List.mem_map_of_mem (List.getElem_mem hi)),
      (hstart _).2 (List.mem_map_of_mem (List.getElem_mem hj)), hlt, Option.some.inj hhash, ?_, ?_⟩
    · exact hle.antisymm (hfrom ▸ hbegin)
    · exact hbegin.antisymm (hfrom ▸ hle)

end Entity

/-! ### One dimension -/

section Dimension

variable {fns : SparkFunctions} (events : List (Scd2Event A κ V))

variable {events} in
/-- The key of a row is the hash of its text. -/
theorem surrogateKey_of_mem_replay {row : Scd2Row A κ V}
    (hrow : row ∈ replaySingleEntityScd2 fns events) :
    row.surrogateKey = positiveHashKey fns (row.keyText fns) := by
  have hmember : row ∈ (replaySingleEntityScd2 fns events).filter
      fun v ↦ v.sourceKey = row.sourceKey := List.mem_filter.2 ⟨hrow, by simp⟩
  rw [filter_replay] at hmember
  exact surrogateKey_of_mem_replayPartition (nodup_historyEventId_partition events _) hmember

variable {events} in
/-- A row of a replay belongs to an entity. -/
theorem exists_sourceKey_of_mem_replay {row : Scd2Row A κ V}
    (hrow : row ∈ replaySingleEntityScd2 fns events) : ∃ k, row.sourceKey = some k := by
  rcases hkey : row.sourceKey with - | k
  · have hmember : row ∈ (replaySingleEntityScd2 fns events).filter
        fun v ↦ v.sourceKey = none := List.mem_filter.2 ⟨hrow, by simp [hkey]⟩
    have hnil : (Relational.dropDuplicatesOn (fun e : Scd2Event A κ V ↦ e.historyEventId)
        (events.filter fun e ↦ e.sourceKey.isSome)).filter (fun e ↦ e.sourceKey = none) = [] := by
      refine List.filter_eq_nil_iff.2 fun e he hnone ↦ ?_
      have hsome := (List.mem_filter.1 (Relational.mem_of_mem_dropDuplicatesOn he)).2
      rw [of_decide_eq_true hnone] at hsome
      cases hsome
    rw [filter_replay, hnil] at hmember
    cases hmember
  · exact ⟨k, rfl⟩

/-- Rows whose texts agree belong to one entity, begin at one instant and have one hash. -/
theorem eq_of_keyText_eq (hcasts : fns.LawfulCasts) {v w : Scd2Row A κ V} {k l : ℤ}
    (hv : v.sourceKey = some k) (hw : w.sourceKey = some l) {g h : Text}
    (hvhash : v.attributeHash = some g) (hwhash : w.attributeHash = some h)
    (heq : v.keyText fns = w.keyText fns) : k = l ∧ v.effectiveFrom = w.effectiveFrom ∧ g = h := by
  have htext : ∀ (row : Scd2Row A κ V) (n : ℤ) (hash : Text), row.sourceKey = some n →
      row.attributeHash = some hash → row.keyText fns = fns.castInt n ++
        (hashSeparator ++ (fns.castTimestamp row.effectiveFrom ++ (hashSeparator ++ hash))) := by
    intro row n hash hkey hhash
    simp [Scd2Row.keyText, hkey, hhash, concatWs, List.intercalate]
  rw [htext v k g hv hvhash, htext w l h hw hwhash] at heq
  obtain ⟨hint, heq⟩ := append_hashSeparator_inj (hcasts.separator_castInt k)
    (hcasts.separator_castInt l) heq
  obtain ⟨htime, hhash⟩ := append_hashSeparator_inj (hcasts.separator_castTimestamp _)
    (hcasts.separator_castTimestamp _) heq
  exact ⟨hcasts.castInt hint, hcasts.castTimestamp htime, hhash⟩

variable {events} in
/-- A row of a replay has a hash. -/
theorem exists_attributeHash_of_mem_replay {row : Scd2Row A κ V}
    (hrow : row ∈ replaySingleEntityScd2 fns events) : ∃ h, row.attributeHash = some h := by
  have hmember : row ∈ (replaySingleEntityScd2 fns events).filter
      fun v ↦ v.sourceKey = row.sourceKey := List.mem_filter.2 ⟨hrow, by simp⟩
  rw [filter_replay, replayPartition_eq_versions fns (nodup_historyEventId_partition events _)]
    at hmember
  obtain ⟨i, hi, hversion⟩ := List.mem_mapIdx.1 hmember
  exact ⟨_, by rw [← hversion]; rfl⟩

/-- **The keys of a replay are distinct exactly if no entity reenters its attributes at once.** -/
theorem nodup_surrogateKey_replay_iff (hcasts : fns.LawfulCasts) (includeUnknown : Bool)
    (unknown : A) (hapart : HashesApart fns includeUnknown (replaySingleEntityScd2 fns events)) :
    ((withUnknown includeUnknown unknown (replaySingleEntityScd2 fns events)).map
        fun v ↦ v.surrogateKey).Nodup ↔
      ∀ k, ¬ReentersAtOnce (entityEvents events k) := by
  set rows := replaySingleEntityScd2 fns events with hrows
  -- the key 0 of the unknown member is no key of a version
  have hunknown : ((withUnknown includeUnknown unknown rows).map fun v ↦ v.surrogateKey).Nodup ↔
      (rows.map fun v ↦ v.surrogateKey).Nodup := by
    rcases includeUnknown with - | -
    · rfl
    · show (0 :: rows.map fun v ↦ v.surrogateKey).Nodup ↔ _
      rw [List.nodup_cons]
      refine and_iff_right fun hmem ↦ ?_
      obtain ⟨v, hv, hzero⟩ := List.mem_map.1 hmem
      rw [surrogateKey_of_mem_replay hv] at hzero
      exact hapart.unknown rfl v hv hzero
  have hkeys : ∀ v ∈ rows, ∀ w ∈ rows, v.surrogateKey = w.surrogateKey →
      v.sourceKey = w.sourceKey ∧ v.effectiveFrom = w.effectiveFrom ∧
        v.attributeHash = w.attributeHash := by
    intro v hv w hw heq
    rw [surrogateKey_of_mem_replay hv, surrogateKey_of_mem_replay hw] at heq
    obtain ⟨k, hk⟩ := exists_sourceKey_of_mem_replay hv
    obtain ⟨l, hl⟩ := exists_sourceKey_of_mem_replay hw
    obtain ⟨g, hg⟩ := exists_attributeHash_of_mem_replay hv
    obtain ⟨h, hh⟩ := exists_attributeHash_of_mem_replay hw
    obtain ⟨rfl, hfrom, rfl⟩ := eq_of_keyText_eq hcasts hk hl hg hh (hapart.collision v hv w hw heq)
    exact ⟨hk.trans hl.symm, hfrom, hg.trans hh.symm⟩
  have hsame : rows.Pairwise (fun v w ↦ v.surrogateKey ≠ w.surrogateKey) ↔
      rows.Pairwise fun v w ↦ ¬(v.sourceKey = w.sourceKey ∧ v.effectiveFrom = w.effectiveFrom ∧
        v.attributeHash = w.attributeHash) := by
    refine ⟨fun h ↦ h.imp_of_mem fun {v w} hv hw hne heq ↦ hne ?_,
      fun h ↦ h.imp_of_mem fun {v w} hv hw hne heq ↦ hne (hkeys v hv w hw heq)⟩
    rw [surrogateKey_of_mem_replay hv, surrogateKey_of_mem_replay hw, Scd2Row.keyText,
      Scd2Row.keyText, heq.1, heq.2.1, heq.2.2]
  have hgroups := Window.pairwise_iff_forall_filter (fun v : Scd2Row A κ V ↦ v.sourceKey)
    (R := fun v w : Scd2Row A κ V ↦ ¬(v.sourceKey = w.sourceKey ∧
      v.effectiveFrom = w.effectiveFrom ∧ v.attributeHash = w.attributeHash))
    fun v (_ : v ∈ rows) w _ hne heq ↦ hne heq.1
  have hentity : ∀ k : ℤ, (rows.filter fun v ↦ v.sourceKey = some k).Pairwise (fun v w ↦
      ¬(v.sourceKey = w.sourceKey ∧ v.effectiveFrom = w.effectiveFrom ∧
        v.attributeHash = w.attributeHash)) ↔ ¬ReentersAtOnce (entityEvents events k) := by
    intro k
    obtain ⟨hids, hsorted⟩ := log_entityEvents events k
    have hpartition : (rows.filter fun v ↦ v.sourceKey = some k) =
        replayPartition fns (sortEvents (entityEvents events k)) :=
      filter_replay fns events (some k)
    have hmember : ∀ v ∈ rows.filter fun v ↦ v.sourceKey = some k, v.sourceKey = some k :=
      fun v hv ↦ of_decide_eq_true (List.mem_filter.1 hv).2
    rw [← pairwise_replayPartition_iff (fun _ ↦ mem_sortEvents) hids hsorted, ← hpartition]
    refine ⟨fun h ↦ h.imp_of_mem fun {v w} hv hw hne heq ↦ hne ⟨?_, heq⟩,
      fun h ↦ h.imp fun hne heq ↦ hne heq.2⟩
    rw [hmember v hv, hmember w hw]
  rw [hunknown, List.Nodup, List.pairwise_map, hsame, hgroups]
  refine ⟨fun h k ↦ (hentity k).1 (h (some k)), fun h member ↦ ?_⟩
  rcases member with - | k
  · have hnil : (rows.filter fun v ↦ v.sourceKey = none) = [] := by
      refine List.filter_eq_nil_iff.2 fun v hv hnone ↦ ?_
      obtain ⟨k, hk⟩ := exists_sourceKey_of_mem_replay hv
      rw [hk] at hnone
      cases of_decide_eq_true hnone
    rw [hnil]
    exact List.Pairwise.nil
  · exact (hentity k).2 (h k)

end Dimension

/-! ### The four dimensions -/

/-- **The surrogate keys of a dimension are distinct exactly if no entity of it takes up its
attributes again at the instant it had them**, hash collisions apart. -/
theorem nodup_surrogateKey_iff (fns : SparkFunctions) (hcasts : fns.LawfulCasts)
    (includeUnknown : Bool) :
    (∀ history, HashesApart fns includeUnknown
        (replaySingleEntityScd2 fns (history.map (shopEvent fns))) →
      (((buildDimShop fns includeUnknown history).map fun v ↦ v.surrogateKey).Nodup ↔
        ∀ k, ¬ReentersAtOnce (entityEvents (history.map (shopEvent fns)) k))) ∧
    (∀ history, HashesApart fns includeUnknown
        (replaySingleEntityScd2 fns (history.map (customerEvent fns))) →
      (((buildDimCustomer fns includeUnknown history).map fun v ↦ v.surrogateKey).Nodup ↔
        ∀ k, ¬ReentersAtOnce (entityEvents (history.map (customerEvent fns)) k))) ∧
    (∀ history, HashesApart fns includeUnknown
        (replaySingleEntityScd2 fns (categoryEvents fns history)) →
      (((buildDimCategory fns includeUnknown history).map fun v ↦ v.surrogateKey).Nodup ↔
        ∀ k, ¬ReentersAtOnce (entityEvents (categoryEvents fns history) k))) ∧
    (∀ productHistory variantHistory, HashesApart fns includeUnknown
        (replaySingleEntityScd2 fns (productEvents fns productHistory variantHistory)) →
      (((buildDimProduct fns includeUnknown productHistory variantHistory).map
          fun v ↦ v.surrogateKey).Nodup ↔
        ∀ k, ¬ReentersAtOnce (entityEvents (productEvents fns productHistory variantHistory) k))) :=
  ⟨fun _ h ↦ nodup_surrogateKey_replay_iff _ hcasts includeUnknown unknownShop h,
    fun _ h ↦ nodup_surrogateKey_replay_iff _ hcasts includeUnknown unknownCustomer h,
    fun _ h ↦ nodup_surrogateKey_replay_iff _ hcasts includeUnknown unknownCategory h,
    fun _ _ h ↦ nodup_surrogateKey_replay_iff _ hcasts includeUnknown unknownProduct h⟩

/-- A shop that is inserted, renamed and renamed back, at the given times. -/
def renamedBackShop (renamedAt backAt : Timestamp) : List (HistoryRow ℤ ShopColumns) :=
  let row (time : Timestamp) (operation : Operation) (id : Char) (eventId : ℤ) (name : Char) :
      HistoryRow ℤ ShopColumns :=
    { key := 7
      createdAt := 10
      payload :=
        { publicShopId := none
          shopName := some [name]
          shopSlug := none
          status := none
          updatedAt := some time }
      operation := operation
      eventOccurredAt := some time
      historyEventId := [id]
      ingestionMode := .cdc
      order := ⟨some 1, some eventId, none, none, none, none⟩ }
  [row 10 .insert 'a' 1 'x', row renamedAt .update 'b' 2 'y', row backAt .update 'c' 3 'x']

/-- The two renamings in transactions of their own. -/
theorem nodup_surrogateKey_iff_renamedBack :
    ((buildDimShop .signed true (renamedBackShop 20 30)).map fun v ↦ v.surrogateKey).Nodup ↔
      ∀ k, ¬ReentersAtOnce (entityEvents ((renamedBackShop 20 30).map (shopEvent .signed)) k) := by
  refine (nodup_surrogateKey_iff .signed lawfulCasts_signed true).1 (renamedBackShop 20 30) ⟨?_, ?_⟩
  · decide +kernel
  · decide +kernel

/-- **Insert and both renamings in one transaction give two versions one key.** -/
theorem surrogateKey_duplicate :
    ¬((buildDimShop .signed false (renamedBackShop 10 10)).map fun v ↦ v.surrogateKey).Nodup ∧
      HashesApart .signed false
        (replaySingleEntityScd2 .signed ((renamedBackShop 10 10).map (shopEvent .signed))) := by
  refine ⟨by decide +kernel, by decide +kernel, nofun⟩

end LakehousePipeline
