import LakehousePipeline.Gold.CategoryJoin

/-!
# Categories at every instant

What `dim_category` is meant to show at an instant is the last row of the category with the name of
its parent then (`CurrentCategories`). The joined event of both is there to be replayed
(`IsJoinedAt`), with one exception: a row whose parent is first recorded while the row lasts is
joined to the parent only (`MeetsParentLater`). Until then the dimension goes on as before the row,
since no event says otherwise (`shownAt_of_meetsParentLater`), or shows the row too early, as the
first version is pulled back to the creation of the category.

`currentCategories_iff` says for which histories neither makes a difference.

## What is to be shown

The specification reads the history and nothing else: the last row of the category at or before the
instant and the last row of its parent (`IsCategoryAt`), of which `toShow` makes a list of at most
one entry. The dimension is read through `shownAt`, the attributes of the rows that cover the
instant, without the creation time, which is a Type-1 column.

## The three conditions

`KeepsCategories` is about the history alone, and each of its fields is one way in which the replay
can miss what is to be shown:

* `existed`: a row of a category that has existed before meets its parent later. The dimension shows
  the row before it, so the two have to look the same.
* `first`: the first existing row meets its parent later. It is then joined to the parent's first
  row alone, and shown from the category's creation on with that parent. So the creation must not be
  after the row, and the parent must be without a name at first.
* `created`: a category whose rows begin with deletes must not be created before it exists, for its
  first version would cover instants at which its last row is a delete.

## The proof

A category is followed through the instants of its history. Where its row is joined, the replay has
the event for exactly what is to be shown, and it is the last one (`isLastAtOrBefore`); where it is
not, the instant before the row is looked at instead (`joined_before`). For the converse the
dimension is read just before and just after the instants the conditions speak of
(`existed_of_current`, `first_of_current`, `created_of_current`).
-/

namespace LakehousePipeline

variable (fns : SparkFunctions) (history : List (HistoryRow ℤ CategoryColumns))

/-! ### What a category is to show -/

/-- The name of a parent: none if the parent is unknown or deleted. -/
def parentNameOf (parent : Option (HistoryRow ℤ CategoryColumns)) : Option Text :=
  parent.bind fun p ↦ if p.operation = .delete then none else p.payload.categoryName

/-- What a category shows of its row and its parent. -/
def shownCategory (c : HistoryRow ℤ CategoryColumns)
    (parent : Option (HistoryRow ℤ CategoryColumns)) : CategoryAttributes where
  sourceParentCategoryId := c.payload.parentCategoryId
  categoryName := c.payload.categoryName
  categorySlug := c.payload.slug
  parentCategoryName := parentNameOf parent
  isActive := c.payload.isActive
  categoryCreatedAt := none

/-- The hash of what a category shows. -/
def shownHash (c : HistoryRow ℤ CategoryColumns)
    (parent : Option (HistoryRow ℤ CategoryColumns)) : Text :=
  naturalHash fns
    [c.payload.parentCategoryId.map fns.castInt, c.payload.categoryName, c.payload.slug,
      parentNameOf parent, c.payload.isActive.map fns.castBool]

/-- The attributes but the creation time. -/
def CategoryAttributes.shown (attributes : CategoryAttributes) : CategoryAttributes :=
  { attributes with categoryCreatedAt := none }

/-- What the rows of a category that cover an instant show. -/
def shownAt (rows : List CategoryRow) (k : ℤ) (t : Timestamp) : List CategoryAttributes :=
  (coveringRows rows k t).map fun row ↦ row.attributes.shown

/-- What is to be shown: nothing of a deleted category. -/
def toShow (c : HistoryRow ℤ CategoryColumns)
    (parent : Option (HistoryRow ℤ CategoryColumns)) : List CategoryAttributes :=
  if c.operation = .delete then [] else [shownCategory c parent]

/-- **The dimension shows every category at every instant** since its first event: no row if its
last row is a delete, and otherwise one, with the columns of that row and the name of the parent
then. -/
def CurrentCategories (rows : List CategoryRow) : Prop :=
  ∀ (k : ℤ) (t : Timestamp), t < openEndedEffectiveTo →
    (∃ first ∈ history, first.key = k ∧ first.eventTime fns CategoryColumns.updatedAt ≤ t) →
      ∃ c parent, IsCategoryAt fns history k t c parent ∧ shownAt rows k t = toShow c parent

/-- **A category history without ties and collisions**, which ends before the open end of a
version. -/
structure CategoryHistory : Prop where
  /-- Distinct event times within each category. -/
  times : DistinctTimes fns CategoryColumns.updatedAt history
  /-- Categories change before the end of time. -/
  ends : ∀ c ∈ history, c.eventTime fns CategoryColumns.updatedAt < openEndedEffectiveTo
  /-- The hashed ids of the joined events do not collide. -/
  ids : ∀ c ∈ history, ∀ c' ∈ history, ∀ parent parent', (∀ p ∈ parent, p ∈ history) →
    (∀ p ∈ parent', p ∈ history) →
      (parentedEvent fns c parent).historyEventId = (parentedEvent fns c' parent').historyEventId →
        c = c' ∧ parent = parent'

/-! ### Where the join says nothing -/

/-- The last row of a category and its parent, where the join has an event for both. -/
def IsJoinedAt (k : ℤ) (t : Timestamp) (c : HistoryRow ℤ CategoryColumns)
    (parent : Option (HistoryRow ℤ CategoryColumns)) : Prop :=
  IsCategoryAt fns history k t c parent ∧ (parent = none → NeverMeetsParent fns history c)

/-- The parent of the row is first recorded while the row lasts. -/
def MeetsParentLater (c : HistoryRow ℤ CategoryColumns) : Prop :=
  IsParentAt fns history (c.eventTime fns CategoryColumns.updatedAt) c none ∧
    ¬NeverMeetsParent fns history c

/-- The first row of a category that is no delete. -/
def IsFirstExistingRow (c : HistoryRow ℤ CategoryColumns) : Prop :=
  c ∈ history ∧ c.operation ≠ .delete ∧ ∀ r ∈ history, r.key = c.key → r.operation ≠ .delete →
    c.eventTime fns CategoryColumns.updatedAt ≤ r.eventTime fns CategoryColumns.updatedAt

/-- **The histories that are shown.** -/
structure KeepsCategories : Prop where
  /-- Where a row of a category that has existed meets its parent only later, what is to be shown is
  what was to be shown before. -/
  existed : ∀ c ∈ history, MeetsParentLater fns history c →
    (∃ r ∈ history, r.key = c.key ∧ r.operation ≠ .delete ∧
      r.eventTime fns CategoryColumns.updatedAt < c.eventTime fns CategoryColumns.updatedAt) →
      ∀ c' parent', IsCategoryAt fns history c.key
          (c.eventTime fns CategoryColumns.updatedAt - 1) c' parent' →
        toShow c none = toShow c' parent'
  /-- Where the first existing row meets its parent only later, the category is created at the row's
  time or before, and the parent has no name at first. -/
  first : ∀ c, IsFirstExistingRow fns history c → MeetsParentLater fns history c →
    c.createdAt ≤ c.eventTime fns CategoryColumns.updatedAt ∧
      ∀ p ∈ history, c.payload.parentCategoryId = some p.key →
        (∀ r ∈ history, r.key = p.key →
          p.eventTime fns CategoryColumns.updatedAt ≤ r.eventTime fns CategoryColumns.updatedAt) →
          parentNameOf (some p) = none
  /-- A category that is deleted at first is not created before it exists. -/
  created : ∀ c, IsFirstExistingRow fns history c →
    (∃ r ∈ history, r.key = c.key ∧
      r.eventTime fns CategoryColumns.updatedAt < c.eventTime fns CategoryColumns.updatedAt) →
      c.eventTime fns CategoryColumns.updatedAt ≤ c.createdAt
  /-- Where the hash stays the same, so does what it is the hash of. -/
  hashed : ∀ k t t' c c' parent parent', t ≤ t' → t' < openEndedEffectiveTo →
    IsJoinedAt fns history k t c parent → IsJoinedAt fns history k t' c' parent' →
      (∀ u x px, t ≤ u → u ≤ t' → IsJoinedAt fns history k u x px →
        x.operation ≠ .delete ∧ shownHash fns x px = shownHash fns c' parent') →
        shownCategory c parent = shownCategory c' parent'

variable {fns history}

/-! ### The joined event of a row and its parent -/

variable (fns) in
/-- The name of a parent, as the join takes it from the parent's state. -/
theorem parentName_asState (parent : Option (HistoryRow ℤ CategoryColumns)) :
    ((parent.map fun p ↦ p.asState fns CategoryColumns.updatedAt).bind fun p ↦
      if p.stateDeleted then none else p.row.payload.categoryName) = parentNameOf parent := by
  rcases parent with - | p
  · rfl
  · show (if decide (p.operation = .delete) = true then none else p.payload.categoryName) =
      if p.operation = .delete then none else p.payload.categoryName
    simp only [decide_eq_true_eq]

/-- A joined event shows its row and the name of its parent. -/
theorem shown_parentedEvent (c : HistoryRow ℤ CategoryColumns)
    (parent : Option (HistoryRow ℤ CategoryColumns)) :
    (parentedEvent fns c parent).attributes.shown = shownCategory c parent := by
  rw [shownCategory, ← parentName_asState fns]
  rfl

/-- Its hash is that of what it shows. -/
theorem attributeHash_parentedEvent (c : HistoryRow ℤ CategoryColumns)
    (parent : Option (HistoryRow ℤ CategoryColumns)) :
    (parentedEvent fns c parent).attributeHash = shownHash fns c parent := by
  rw [shownHash, ← parentName_asState fns]
  rfl

/-- It is a delete exactly if its row is one. -/
theorem operation_parentedEvent {c : HistoryRow ℤ CategoryColumns}
    {parent : Option (HistoryRow ℤ CategoryColumns)} :
    (parentedEvent fns c parent).operation = .delete ↔ c.operation = .delete := by
  show (if decide (c.operation = .delete) = true then Operation.delete else .update) = .delete ↔ _
  split <;> simp_all

/-- A first version begins at the creation of the category, if that is before its event. -/
theorem effectiveFrom_parentedEvent (c : HistoryRow ℤ CategoryColumns)
    (parent : Option (HistoryRow ℤ CategoryColumns)) :
    effectiveFrom (parentedEvent fns c parent) 1 =
      c.createdAt ⊓ (parentedEvent fns c parent).eventTime := by
  have hop : (parentedEvent fns c parent).operation ≠ .seed := by
    show (if decide (c.operation = .delete) = true then Operation.delete else .update) ≠ .seed
    split <;> exact nofun
  rw [effectiveFrom, if_neg hop, if_pos rfl]
  rfl

variable (fns) in
/-- The row and its parent began by the time of their event. -/
theorem le_eventTime_parentedEvent (c : HistoryRow ℤ CategoryColumns)
    (parent : Option (HistoryRow ℤ CategoryColumns)) :
    c.eventTime fns CategoryColumns.updatedAt ≤ (parentedEvent fns c parent).eventTime ∧
      ∀ p ∈ parent,
        p.eventTime fns CategoryColumns.updatedAt ≤ (parentedEvent fns c parent).eventTime := by
  rcases parent with - | p
  · exact ⟨le_sup_left, fun p hp ↦ absurd hp (Option.not_mem_none p)⟩
  · refine ⟨le_sup_left, fun q hq ↦ ?_⟩
    obtain rfl := Option.some.inj hq
    exact le_sup_right

/-- The event of a row and its parent has happened when both are the last. -/
theorem eventTime_parentedEvent_le {k : ℤ} {t : Timestamp} {c : HistoryRow ℤ CategoryColumns}
    {parent : Option (HistoryRow ℤ CategoryColumns)} (h : IsCategoryAt fns history k t c parent) :
    (parentedEvent fns c parent).eventTime ≤ t := by
  rcases parent with - | p
  · exact sup_le h.1.2.2.1 h.1.2.2.1
  · exact sup_le h.1.2.2.1 h.2.2.2.2.1

/-- A row and its parent are what they are since their event. -/
theorem IsCategoryAt.mono {k : ℤ} {t u : Timestamp} {c : HistoryRow ℤ CategoryColumns}
    {parent : Option (HistoryRow ℤ CategoryColumns)} (h : IsCategoryAt fns history k t c parent)
    (hu : (parentedEvent fns c parent).eventTime ≤ u) (hut : u ≤ t) :
    IsCategoryAt fns history k u c parent := by
  obtain ⟨hc, hp⟩ := le_eventTime_parentedEvent fns c parent
  refine ⟨h.1.mono (hc.trans hu) hut, ?_⟩
  rcases parent with - | p
  · exact fun q hq hname ↦ hut.trans_lt (h.2 q hq hname)
  · exact ⟨h.2.1, h.2.2.mono ((hp p rfl).trans hu) hut⟩

/-- A row that is joined is joined since its event. -/
theorem IsJoinedAt.mono {k : ℤ} {t u : Timestamp} {c : HistoryRow ℤ CategoryColumns}
    {parent : Option (HistoryRow ℤ CategoryColumns)} (h : IsJoinedAt fns history k t c parent)
    (hu : (parentedEvent fns c parent).eventTime ≤ u) (hut : u ≤ t) :
    IsJoinedAt fns history k u c parent :=
  ⟨h.1.mono hu hut, h.2⟩

/-! ### The instants of a category -/

/-- A row at distinct times is the last one when it begins. -/
theorem DistinctTimes.isLastRow (h : DistinctTimes fns CategoryColumns.updatedAt history)
    {c : HistoryRow ℤ CategoryColumns} (hc : c ∈ history) :
    IsLastRow fns CategoryColumns.updatedAt history c.key
      (c.eventTime fns CategoryColumns.updatedAt) c := by
  obtain ⟨s, hs, hforce⟩ := exists_inForce hc rfl le_rfl
  have hlast := isLastRow_of_inForce hs hforce
  by_cases hne : c = s.row
  · rwa [← hne] at hlast
  · have hsymm : Std.Symm fun a b : HistoryRow ℤ CategoryColumns ↦ a.key = b.key →
        a.eventTime fns CategoryColumns.updatedAt ≠ b.eventTime fns CategoryColumns.updatedAt :=
      ⟨fun _ _ hab hkey heq ↦ hab hkey.symm heq.symm⟩
    refine absurd (le_antisymm ?_ hlast.2.2.1)
      (List.Pairwise.forall h hc hlast.1 hne hlast.2.1.symm)
    exact historyTime_le_of_order_le (hlast.2.2.2 c hc rfl le_rfl)

namespace CategoryHistory

variable (h : CategoryHistory fns history) {k : ℤ} {t : Timestamp}
  {c c' : HistoryRow ℤ CategoryColumns} {parent parent' : Option (HistoryRow ℤ CategoryColumns)}

include h

/-- Distinct times order the rows of every category. -/
theorem ordered : OrderedCategories fns history where
  order := h.times.distinctOrder
  ends := h.ends
  ids := h.ids

/-- The events of a category have ids of their own. -/
theorem idsOfKey (k : ℤ) : IdsApart (eventsOfKey (categoryEvents fns history) k) :=
  h.ordered.idsApart.eventsOfKey k

/-- A category has one last row and one parent at an instant. -/
theorem isCategoryAt_unique (hat : IsCategoryAt fns history k t c parent)
    (hat' : IsCategoryAt fns history k t c' parent') : c = c' ∧ parent = parent' := by
  obtain rfl := h.times.distinctOrder.isLastRow_unique hat.1 hat'.1
  refine ⟨rfl, ?_⟩
  rcases parent with - | p <;> rcases parent' with - | p'
  · rfl
  · exact absurd (hat.2 p' hat'.2.2.1 hat'.2.1) hat'.2.2.2.2.1.not_gt
  · exact absurd (hat'.2 p hat.2.2.1 hat.2.1) hat.2.2.2.2.1.not_gt
  · have hkey : p.key = p'.key := Option.some.inj (hat.2.1.symm.trans hat'.2.1)
    rw [h.times.distinctOrder.isLastRow_unique hat.2.2 (hkey ▸ hat'.2.2)]

omit h in
/-- Since its first row a category has a last row. -/
theorem exists_isCategoryAt (hfirst : ∃ first ∈ history, first.key = k ∧
      first.eventTime fns CategoryColumns.updatedAt ≤ t) :
    ∃ c parent, IsCategoryAt fns history k t c parent := by
  obtain ⟨first, hmem, hkey, hle⟩ := hfirst
  obtain ⟨category, hcategory, hforce⟩ := exists_inForce hmem hkey hle
  have hlast := isLastRow_of_inForce hcategory hforce
  by_cases hknown : ∃ p ∈ history, category.row.payload.parentCategoryId = some p.key ∧
      p.eventTime fns CategoryColumns.updatedAt ≤ t
  · obtain ⟨p, hp, hname, hpt⟩ := hknown
    obtain ⟨s, hs, hsforce⟩ := exists_inForce hp rfl hpt
    have hparent := isLastRow_of_inForce hs hsforce
    rw [← hparent.2.1] at hname hparent
    exact ⟨category.row, some s.row, hlast, hname, hparent⟩
  · exact ⟨category.row, none, hlast, fun p hp hname ↦
      not_le.1 fun hle ↦ hknown ⟨p, hp, hname, hle⟩⟩

/-- **An event of a category is the joined event at its time.** -/
theorem exists_joined_of_mem {e : Scd2Event CategoryAttributes Empty ℤ}
    (he : e ∈ eventsOfKey (categoryEvents fns history) k) :
    ∃ c parent, IsJoinedAt fns history k e.eventTime c parent ∧ e = parentedEvent fns c parent := by
  obtain ⟨c, parent, hc, hparent, heq, ⟨hat, hnever⟩ | ⟨rfl, hct, hnot, -⟩ |
    ⟨p, rfl, hlast, hct, hp, hname, hpt⟩⟩ := h.ordered.cases_of_mem he rfl
  · exact ⟨c, parent, ⟨hat, hnever⟩, heq⟩
  · -- distinct times do not tie
    rw [← hct] at hnot
    exact absurd (h.times.isLastRow hc) hnot
  · have hplast := h.times.isLastRow hp
    rw [hpt] at hplast
    exact ⟨c, some p, ⟨⟨hlast, hname, hplast⟩, nofun⟩, heq⟩

/-- A row that is joined to its parent has its event in the replay. -/
theorem joined_mem (ht : t < openEndedEffectiveTo) (hat : IsJoinedAt fns history k t c parent) :
    parentedEvent fns c parent ∈ eventsOfKey (categoryEvents fns history) k :=
  h.ordered.parentedEvent_mem ht hat.1 hat.2

/-- **Where a row and its parent are joined, their event is the last that has begun.** -/
theorem isLastAtOrBefore (ht : t < openEndedEffectiveTo)
    (hat : IsJoinedAt fns history k t c parent) :
    IsLastAtOrBefore (eventsOfKey (categoryEvents fns history) k) t
      (parentedEvent fns c parent) := by
  refine ⟨h.joined_mem ht hat, eventTime_parentedEvent_le hat.1, fun x hx hxt ↦ ?_⟩
  by_contra hlt
  have hle := eventTime_le_of_eventOrder_le (not_le.1 hlt).le
  -- between their event and `t` there is no other row and no other parent
  obtain ⟨c', parent', hat', rfl⟩ := h.exists_joined_of_mem hx
  obtain ⟨rfl, rfl⟩ := h.isCategoryAt_unique hat'.1 (hat.1.mono hle hxt)
  exact hlt le_rfl

/-- Where a row is not joined yet, no event happens since it began. -/
theorem eventTime_lt_of_not_joined (hat : IsCategoryAt fns history k t c none)
    (hmeets : ¬NeverMeetsParent fns history c) {e : Scd2Event CategoryAttributes Empty ℤ}
    (he : e ∈ eventsOfKey (categoryEvents fns history) k) (het : e.eventTime ≤ t) :
    e.eventTime < c.eventTime fns CategoryColumns.updatedAt := by
  by_contra hle
  obtain ⟨c', parent', hat', rfl⟩ := h.exists_joined_of_mem he
  have hat : IsCategoryAt fns history k (parentedEvent fns c' parent').eventTime c none :=
    hat.mono (by
      show c.eventTime fns _ ⊔ c.eventTime fns _ ≤ _
      rw [sup_idem]
      exact not_lt.1 hle) het
  obtain ⟨rfl, rfl⟩ := h.isCategoryAt_unique hat'.1 hat
  exact hmeets (hat'.2 rfl)

omit h in
/-- Just before a row begins the one before it is joined. -/
theorem joined_before (hc : c ∈ history)
    (hat : IsCategoryAt fns history c.key (c.eventTime fns CategoryColumns.updatedAt - 1) c'
      parent') :
    IsJoinedAt fns history c.key (c.eventTime fns CategoryColumns.updatedAt - 1) c' parent' := by
  refine ⟨hat, ?_⟩
  rintro rfl p hp hname
  have hlt : c'.eventTime fns CategoryColumns.updatedAt <
      c.eventTime fns CategoryColumns.updatedAt := Int.lt_of_le_sub_one hat.1.2.2.1
  refine ⟨c, hc, hat.1.2.1.symm, lt_of_not_ge fun hge ↦ ?_, ?_⟩
  · exact absurd (historyTime_le_of_order_le hge) hlt.not_ge
  · exact Int.le_of_sub_one_lt (hat.2 p hp hname)

/-- Where the parent of a row is first recorded while the row lasts, both are joined then. -/
theorem exists_first_parent (hc : c ∈ history) (hmeets : MeetsParentLater fns history c) :
    ∃ p ∈ history, c.payload.parentCategoryId = some p.key ∧
      c.eventTime fns CategoryColumns.updatedAt < p.eventTime fns CategoryColumns.updatedAt ∧
      (∀ r ∈ history, r.key = p.key →
        p.eventTime fns CategoryColumns.updatedAt ≤ r.eventTime fns CategoryColumns.updatedAt) ∧
      IsJoinedAt fns history c.key (p.eventTime fns CategoryColumns.updatedAt) c (some p) ∧
      ∀ next ∈ history, next.key = c.key →
        c.eventTime fns CategoryColumns.updatedAt <
          next.eventTime fns CategoryColumns.updatedAt →
            p.eventTime fns CategoryColumns.updatedAt <
              next.eventTime fns CategoryColumns.updatedAt := by
  obtain ⟨hunknown, hnever⟩ := hmeets
  -- a parent row before the next row of the category, and so the first one
  obtain ⟨q, hq, hname, hnext⟩ : ∃ q ∈ history, c.payload.parentCategoryId = some q.key ∧
      ∀ next ∈ history, next.key = c.key →
        historyOrder fns CategoryColumns.updatedAt c <
          historyOrder fns CategoryColumns.updatedAt next →
            q.eventTime fns CategoryColumns.updatedAt <
              next.eventTime fns CategoryColumns.updatedAt := by
    by_contra hno
    refine hnever fun q hq hname ↦ ?_
    by_contra hlater
    refine hno ⟨q, hq, hname, fun next hnext hkey hlt ↦ lt_of_not_ge fun hle ↦ ?_⟩
    exact hlater ⟨next, hnext, hkey, hlt, hle⟩
  have hfinite : {p | p ∈ history ∧ p.key = q.key}.Finite :=
    (List.finite_toSet history).subset fun p hp ↦ hp.1
  obtain ⟨p, ⟨hp, hpkey⟩, hfirst⟩ := Set.exists_min_image _
    (fun p : HistoryRow ℤ CategoryColumns ↦ p.eventTime fns CategoryColumns.updatedAt) hfinite
    ⟨q, hq, rfl⟩
  have hpq := hfirst q ⟨hq, rfl⟩
  have hpname : c.payload.parentCategoryId = some p.key := by rw [hname, hpkey]
  have hcp := hunknown p hp hpname
  refine ⟨p, hp, hpname, hcp, fun r hr hkey ↦ hfirst r ⟨hr, hkey.trans hpkey⟩,
    ⟨⟨⟨hc, rfl, hcp.le, fun r hr hkey hrp ↦ not_lt.1 fun hlt ↦ ?_⟩, hpname, h.times.isLastRow hp⟩,
      nofun⟩, fun next hn hkey hlt ↦ hpq.trans_lt (hnext next hn hkey ?_)⟩
  · exact absurd (hrp.trans hpq) (hnext r hr hkey hlt).not_ge
  · exact lt_of_not_ge fun hge ↦ absurd (historyTime_le_of_order_le hge) hlt.not_ge

/-- Every row has an event before the next one begins. -/
theorem exists_event_of_row (hc : c ∈ history) :
    ∃ parent, parentedEvent fns c parent ∈ eventsOfKey (categoryEvents fns history) c.key ∧
      ∀ next ∈ history, next.key = c.key →
        c.eventTime fns CategoryColumns.updatedAt <
          next.eventTime fns CategoryColumns.updatedAt →
            (parentedEvent fns c parent).eventTime <
              next.eventTime fns CategoryColumns.updatedAt := by
  have hle := le_refl (c.eventTime fns CategoryColumns.updatedAt)
  obtain ⟨c', parent, hat⟩ := exists_isCategoryAt ⟨c, hc, rfl, hle⟩
  obtain rfl := h.times.distinctOrder.isLastRow_unique hat.1 (h.times.isLastRow hc)
  by_cases hnever : parent = none → NeverMeetsParent fns history c'
  · exact ⟨parent, h.joined_mem (h.ends c' hc) ⟨hat, hnever⟩, fun next _ _ hlt ↦
      (eventTime_parentedEvent_le hat).trans_lt hlt⟩
  · obtain ⟨rfl, hmeets⟩ := Classical.not_imp.1 hnever
    obtain ⟨p, hp, -, hcp, -, hjoined, hnext⟩ := h.exists_first_parent hc ⟨hat.2, hmeets⟩
    exact ⟨some p, h.joined_mem (h.ends p hp) hjoined, fun next hn hkey hlt ↦
      sup_lt_iff.2 ⟨hlt, hnext next hn hkey hlt⟩⟩

/-! ### The first existing event -/

/-- Rows of a category that begin together are one row. -/
theorem eq_of_eventTime_eq (hc : c ∈ history) (hc' : c' ∈ history) (hkey : c.key = c'.key)
    (htime : c.eventTime fns CategoryColumns.updatedAt =
      c'.eventTime fns CategoryColumns.updatedAt) :
    c = c' := by
  have hlast := h.times.isLastRow hc
  rw [hkey, htime] at hlast
  exact h.times.distinctOrder.isLastRow_unique hlast (h.times.isLastRow hc')

/-- The first existing event is of the first existing row. -/
theorem row_of_isFirstExisting {e : Scd2Event CategoryAttributes Empty ℤ}
    (he : IsFirstExisting (eventsOfKey (categoryEvents fns history) k) e) :
    ∃ c parent, e = parentedEvent fns c parent ∧ c.key = k ∧ IsFirstExistingRow fns history c ∧
      IsJoinedAt fns history k e.eventTime c parent := by
  obtain ⟨hmem, hop, hleast⟩ := he
  obtain ⟨c, parent, hat, rfl⟩ := h.exists_joined_of_mem hmem
  refine ⟨c, parent, rfl, hat.1.1.2.1,
    ⟨hat.1.1.1, fun hdel ↦ hop (operation_parentedEvent.2 hdel), fun r hr hkey hrop ↦ ?_⟩, hat⟩
  by_contra hlt
  -- an earlier row would have an earlier event
  obtain ⟨parent', hmem', hnext⟩ := h.exists_event_of_row hr
  rw [hkey, hat.1.1.2.1] at hmem'
  have hle := eventTime_le_of_eventOrder_le
    (hleast _ hmem' fun hdel ↦ hrop (operation_parentedEvent.1 hdel))
  exact absurd (hle.trans_lt (hnext c hat.1.1.1 hkey.symm (not_le.1 hlt)))
    (le_eventTime_parentedEvent fns c parent).1.not_gt

/-- The first existing row has the first existing event. -/
theorem exists_isFirstExisting_of_row (hc : IsFirstExistingRow fns history c) :
    ∃ parent, IsFirstExisting (eventsOfKey (categoryEvents fns history) c.key)
        (parentedEvent fns c parent) ∧
      IsJoinedAt fns history c.key (parentedEvent fns c parent).eventTime c parent := by
  obtain ⟨parent, hmem, -⟩ := h.exists_event_of_row hc.1
  obtain ⟨e, he⟩ := exists_isFirstExisting (h.idsOfKey c.key) hmem fun hdel ↦
    hc.2.1 (operation_parentedEvent.1 hdel)
  obtain ⟨c', parent', rfl, hkey, hc', hat⟩ := h.row_of_isFirstExisting he
  obtain rfl := h.eq_of_eventTime_eq hc.1 hc'.1 hkey.symm
    (le_antisymm (hc.2.2 c' hc'.1 hkey hc'.2.1) (hc'.2.2 c hc.1 hkey.symm hc.2.1))
  exact ⟨parent', he, hat⟩

/-- The first existing row, if it meets its parent only later, is joined to the parent's first
row. -/
theorem isFirstExisting_of_meetsParentLater (hc : IsFirstExistingRow fns history c)
    (hmeets : MeetsParentLater fns history c) :
    ∃ p ∈ history, c.payload.parentCategoryId = some p.key ∧
      (∀ r ∈ history, r.key = p.key →
        p.eventTime fns CategoryColumns.updatedAt ≤ r.eventTime fns CategoryColumns.updatedAt) ∧
      c.eventTime fns CategoryColumns.updatedAt < p.eventTime fns CategoryColumns.updatedAt ∧
      IsFirstExisting (eventsOfKey (categoryEvents fns history) c.key)
        (parentedEvent fns c (some p)) := by
  obtain ⟨p, hp, hname, hcp, hfirst, hjoined, -⟩ := h.exists_first_parent hc.1 hmeets
  obtain ⟨parent, he, hat⟩ := h.exists_isFirstExisting_of_row hc
  refine ⟨p, hp, hname, hfirst, hcp, ?_⟩
  have hle : (parentedEvent fns c parent).eventTime ≤ p.eventTime fns CategoryColumns.updatedAt :=
    (eventTime_le_of_eventOrder_le (he.2.2 _ (h.joined_mem (h.ends p hp) hjoined) fun hdel ↦
      hc.2.1 (operation_parentedEvent.1 hdel))).trans (eventTime_parentedEvent_le hjoined.1)
  rcases parent with - | p'
  · exact absurd (hat.2 rfl) hmeets.2
  · have hkey : p'.key = p.key := Option.some.inj (hat.1.2.1.symm.trans hname)
    have hge := (hfirst p' hat.1.2.2.1 hkey).trans
      ((le_eventTime_parentedEvent fns c (some p')).2 p' rfl)
    rw [le_antisymm hle hge] at hat
    obtain ⟨-, heq⟩ := h.isCategoryAt_unique hat.1 hjoined.1
    rwa [heq] at he

/-! ### The rows that cover an instant -/

variable (includeUnknown : Bool)

/-- What covers an instant of a category is read off the replay of its events. -/
theorem shownAt_eq (k : ℤ) (t : Timestamp) :
    shownAt (buildDimCategory fns includeUnknown history) k t =
      ((replaySingleEntityScd2 fns (eventsOfKey (categoryEvents fns history) k)).filter
        fun row ↦ row.Covers t).map fun row ↦ row.attributes.shown := by
  rw [shownAt, buildDimCategory, coveringRows_withUnknown h.ordered.idsApart]

omit h in
/-- The events of a category have its key. -/
theorem sourceKey_of_mem (k : ℤ) : ∀ e ∈ eventsOfKey (categoryEvents fns history) k,
    e.sourceKey = some k := fun _ he ↦ (mem_eventsOfKey.1 he).2

/-- Before a category first exists it is shown since its creation. -/
theorem shownAt_eq_nil_iff (ht : t < openEndedEffectiveTo)
    (hdeleted : ∀ r ∈ history, r.key = k → r.eventTime fns CategoryColumns.updatedAt ≤ t →
      r.operation = .delete) :
    shownAt (buildDimCategory fns includeUnknown history) k t = [] ↔
      ∀ c, IsFirstExistingRow fns history c → c.key = k → t < c.createdAt := by
  have hbefore : ∀ x ∈ eventsOfKey (categoryEvents fns history) k, x.operation ≠ .delete →
      t < x.eventTime := by
    intro x hx hop
    by_contra hle
    obtain ⟨c, parent, hat, rfl⟩ := h.exists_joined_of_mem hx
    refine hop (operation_parentedEvent.2 (hdeleted c hat.1.1.1 hat.1.1.2.1 ?_))
    exact (le_eventTime_parentedEvent fns c parent).1.trans (not_lt.1 hle)
  rw [h.shownAt_eq, List.map_eq_nil_iff,
    covering_before_eq_nil_iff (sourceKey_of_mem k) (h.idsOfKey k) ht hbefore]
  constructor
  · rintro hno c hc rfl
    obtain ⟨parent, he, -⟩ := h.exists_isFirstExisting_of_row hc
    have hlt := hno _ he
    rw [effectiveFrom_parentedEvent] at hlt
    exact (lt_inf_iff.1 hlt).1
  · intro hcreated e he
    have hte := hbefore e he.1 he.2.1
    obtain ⟨c, parent, rfl, hkey, hc, -⟩ := h.row_of_isFirstExisting he
    rw [effectiveFrom_parentedEvent]
    exact lt_inf_iff.2 ⟨hcreated c hc hkey, hte⟩

/-- A deleted category that has existed is not shown. -/
theorem shownAt_of_deleted (ht : t < openEndedEffectiveTo)
    (hat : IsJoinedAt fns history k t c parent) (hdeleted : c.operation = .delete)
    (hexisted : ∃ r ∈ history, r.key = k ∧ r.operation ≠ .delete ∧
      r.eventTime fns CategoryColumns.updatedAt ≤ t) :
    shownAt (buildDimCategory fns includeUnknown history) k t = [] := by
  obtain ⟨r, hr, rfl, hop, hrt⟩ := hexisted
  have hlt : r.eventTime fns CategoryColumns.updatedAt <
      c.eventTime fns CategoryColumns.updatedAt := by
    refine lt_of_le_of_ne (historyTime_le_of_order_le (hat.1.1.2.2.2 r hr rfl hrt)) fun heq ↦ ?_
    rw [h.eq_of_eventTime_eq hr hat.1.1.1 hat.1.1.2.1.symm heq] at hop
    exact hop hdeleted
  obtain ⟨parent', hmem, hnext⟩ := h.exists_event_of_row hr
  have hxt := (hnext c hat.1.1.1 hat.1.1.2.1 hlt).le.trans hat.1.1.2.2.1
  rw [h.shownAt_eq, (covering_of_deleted (sourceKey_of_mem r.key) (h.idsOfKey r.key) ht
    (h.isLastAtOrBefore ht hat) (operation_parentedEvent.2 hdeleted)).2, List.map_nil]
  intro e he hte
  have hle := eventTime_le_of_eventOrder_le
    (he.2.2 _ hmem fun hdel ↦ hop (operation_parentedEvent.1 hdel))
  exact absurd (hle.trans hxt) hte.not_ge

/-- An existing category is shown as its version began. -/
theorem exists_shownAt (ht : t < openEndedEffectiveTo) (hat : IsJoinedAt fns history k t c parent)
    (hop : c.operation ≠ .delete) :
    ∃ s, IsVersionStart (eventsOfKey (categoryEvents fns history) k) s ∧
      IsVersionEvent (eventsOfKey (categoryEvents fns history) k) s (parentedEvent fns c parent) ∧
        shownAt (buildDimCategory fns includeUnknown history) k t = [s.attributes.shown] := by
  obtain ⟨row, s, hrow, hs, hversion, hattributes, -⟩ :=
    covering_of_existing (sourceKey_of_mem k) (h.idsOfKey k) ht
      (h.isLastAtOrBefore ht hat) fun hdel ↦ hop (operation_parentedEvent.1 hdel)
  refine ⟨s, hs, hversion, ?_⟩
  rw [h.shownAt_eq, hrow, List.map_singleton, hattributes]

/-- **A row that meets its parent only later is not shown until then**: the dimension goes on as
before. -/
theorem shownAt_of_meetsParentLater (ht : t < openEndedEffectiveTo)
    (hat : IsCategoryAt fns history k t c none) (hmeets : ¬NeverMeetsParent fns history c)
    (hexisted : ∃ r ∈ history, r.key = k ∧ r.operation ≠ .delete ∧
      r.eventTime fns CategoryColumns.updatedAt < c.eventTime fns CategoryColumns.updatedAt) :
    shownAt (buildDimCategory fns includeUnknown history) k t =
      shownAt (buildDimCategory fns includeUnknown history) k
        (c.eventTime fns CategoryColumns.updatedAt - 1) := by
  obtain ⟨r, hr, rfl, hop, hlt⟩ := hexisted
  obtain ⟨parent, hmem, hnext⟩ := h.exists_event_of_row hr
  have hx := Int.le_sub_one_of_lt (hnext c hat.1.1 hat.1.2.1 hlt)
  have hsame := covering_unchanged fns (sourceKey_of_mem r.key) (h.idsOfKey r.key) ht
    ((Int.sub_le_self _ Int.one_nonneg).trans hat.1.2.2.1)
    ⟨_, hmem, fun hdel ↦ hop (operation_parentedEvent.1 hdel), hx⟩ fun e he het ↦
      Int.le_sub_one_of_lt (h.eventTime_lt_of_not_joined hat hmeets he het)
  have hshown := congrArg (List.map CategoryAttributes.shown) hsame
  rw [List.map_map, List.map_map] at hshown
  rw [h.shownAt_eq, h.shownAt_eq]
  exact hshown

/-- The first existing row, if it meets its parent only later, is shown since its creation, with the
parent it will have. -/
theorem shownAt_of_first (ht : t < openEndedEffectiveTo)
    (hat : IsCategoryAt fns history c.key t c none) (hc : IsFirstExistingRow fns history c)
    (hmeets : MeetsParentLater fns history c) :
    ∃ p ∈ history, c.payload.parentCategoryId = some p.key ∧
      (∀ r ∈ history, r.key = p.key →
        p.eventTime fns CategoryColumns.updatedAt ≤ r.eventTime fns CategoryColumns.updatedAt) ∧
      (c.createdAt ≤ t → shownAt (buildDimCategory fns includeUnknown history) c.key t =
        [shownCategory c (some p)]) ∧
      (t < c.createdAt → shownAt (buildDimCategory fns includeUnknown history) c.key t = []) := by
  obtain ⟨p, hp, hname, hfirst, hcp, he⟩ := h.isFirstExisting_of_meetsParentLater hc hmeets
  have htp : t < (parentedEvent fns c (some p)).eventTime :=
    (hat.2 p hp hname).trans_le ((le_eventTime_parentedEvent fns c (some p)).2 p rfl)
  obtain ⟨hcovered, hnone⟩ := covering_before (sourceKey_of_mem c.key)
    (h.idsOfKey c.key) ht he htp
  rw [effectiveFrom_parentedEvent] at hcovered hnone
  refine ⟨p, hp, hname, hfirst, fun hle ↦ ?_, fun hlt ↦ ?_⟩
  · obtain ⟨row, hrow, hattributes, -⟩ := hcovered (inf_le_left.trans hle)
    rw [h.shownAt_eq, hrow, List.map_singleton, hattributes, shown_parentedEvent]
  · rw [h.shownAt_eq, hnone (lt_inf_iff.2 ⟨hlt, htp⟩), List.map_nil]

/-! ### Histories that are shown -/

omit h in
/-- A joined event in the state of another that is no delete has its hash. -/
theorem hash_of_entityState_eq
    (hstate : entityState (parentedEvent fns c parent) = entityState (parentedEvent fns c' parent'))
    (hop : c'.operation ≠ .delete) :
    c.operation ≠ .delete ∧ shownHash fns c parent = shownHash fns c' parent' := by
  have hop' : (parentedEvent fns c' parent').operation ≠ .delete := fun hdel ↦
    hop (operation_parentedEvent.1 hdel)
  have hne : (parentedEvent fns c parent).operation ≠ .delete := fun hdel ↦
    hop' (entityState_eq_none.1 (hstate ▸ entityState_eq_none.2 hdel))
  rw [entityState_of_ne hne, entityState_of_ne hop'] at hstate
  refine ⟨fun hdel ↦ hne (operation_parentedEvent.2 hdel), ?_⟩
  rw [← attributeHash_parentedEvent, ← attributeHash_parentedEvent]
  exact Option.some.inj hstate

omit h in
/-- While all rows of a category are deletes it is not created yet. -/
theorem lt_createdAt (hkeeps : KeepsCategories fns history)
    (hfirst : ∃ r ∈ history, r.key = k ∧ r.eventTime fns CategoryColumns.updatedAt ≤ t)
    (hdeleted : ∀ r ∈ history, r.key = k → r.eventTime fns CategoryColumns.updatedAt ≤ t →
      r.operation = .delete) :
    ∀ c, IsFirstExistingRow fns history c → c.key = k → t < c.createdAt := by
  rintro c hc rfl
  obtain ⟨r, hr, hkey, hrt⟩ := hfirst
  have htc : t < c.eventTime fns CategoryColumns.updatedAt :=
    not_le.1 fun hle ↦ hc.2.1 (hdeleted c hc.1 rfl hle)
  exact htc.trans_le (hkeeps.created c hc ⟨r, hr, hkey, hrt.trans_lt htc⟩)

/-- A joined row is shown. -/
theorem shownAt_of_joined (hkeeps : KeepsCategories fns history) (ht : t < openEndedEffectiveTo)
    (hat : IsJoinedAt fns history k t c parent) :
    shownAt (buildDimCategory fns includeUnknown history) k t = toShow c parent := by
  by_cases hop : c.operation = .delete
  · rw [toShow, if_pos hop]
    by_cases hexisted : ∃ r ∈ history, r.key = k ∧ r.operation ≠ .delete ∧
        r.eventTime fns CategoryColumns.updatedAt ≤ t
    · exact h.shownAt_of_deleted includeUnknown ht hat hop hexisted
    · have hdeleted : ∀ r ∈ history, r.key = k → r.eventTime fns CategoryColumns.updatedAt ≤ t →
          r.operation = .delete := fun r hr hkey hrt ↦ by
        by_contra hne
        exact hexisted ⟨r, hr, hkey, hne, hrt⟩
      refine (h.shownAt_eq_nil_iff includeUnknown ht hdeleted).2 (lt_createdAt hkeeps ?_ hdeleted)
      exact ⟨c, hat.1.1.1, hat.1.1.2.1, hat.1.1.2.2.1⟩
  · obtain ⟨s, hs, hversion, hshown⟩ := h.exists_shownAt includeUnknown ht hat hop
    obtain ⟨c', parent', hat', rfl⟩ := h.exists_joined_of_mem hs.1
    have hle :=
      (eventTime_le_of_eventOrder_le hversion.2.1).trans (eventTime_parentedEvent_le hat.1)
    rw [hshown, toShow, if_neg hop, shown_parentedEvent]
    congr 1
    refine hkeeps.hashed k _ t c' c parent' parent hle ht hat' hat fun u x px hu hut hx ↦ ?_
    -- the events in between are of the version
    have hlast := h.isLastAtOrBefore (hut.trans_lt ht) hx
    have hmax := h.isLastAtOrBefore ht hat
    have hstate := hversion.2.2 _ hlast.1 (hlast.2.2 _ hs.1 hu)
      (hmax.2.2 _ hlast.1 (hlast.2.1.trans hut))
    have hstate' := hversion.2.2 _ hmax.1 hversion.2.1 le_rfl
    exact hash_of_entityState_eq (hstate.trans hstate'.symm) hop

/-- A row that is not joined yet is shown all the same. -/
theorem shownAt_of_not_joined (hkeeps : KeepsCategories fns history) (ht : t < openEndedEffectiveTo)
    (hat : IsCategoryAt fns history k t c none) (hnever : ¬NeverMeetsParent fns history c) :
    shownAt (buildDimCategory fns includeUnknown history) k t = toShow c none := by
  obtain rfl := hat.1.2.1
  have hct := hat.1.2.2.1
  have hmeets : MeetsParentLater fns history c :=
    ⟨fun p hp hname ↦ hct.trans_lt (hat.2 p hp hname), hnever⟩
  by_cases hexisted : ∃ r ∈ history, r.key = c.key ∧ r.operation ≠ .delete ∧
      r.eventTime fns CategoryColumns.updatedAt < c.eventTime fns CategoryColumns.updatedAt
  · -- the dimension goes on as before
    have hearlier := hexisted
    obtain ⟨r, hr, hkey, -, hlt⟩ := hearlier
    obtain ⟨c', parent', hat'⟩ := exists_isCategoryAt ⟨r, hr, hkey, Int.le_sub_one_of_lt hlt⟩
    have hbefore := Int.sub_le_self (c.eventTime fns CategoryColumns.updatedAt) Int.one_nonneg
    rw [h.shownAt_of_meetsParentLater includeUnknown ht hat hnever hexisted,
      h.shownAt_of_joined includeUnknown hkeeps ((hbefore.trans hct).trans_lt ht)
        (joined_before hat.1.1 hat'), hkeeps.existed c hat.1.1 hmeets hexisted c' parent' hat']
  · by_cases hop : c.operation = .delete
    · have hdeleted : ∀ r ∈ history, r.key = c.key →
          r.eventTime fns CategoryColumns.updatedAt ≤ t → r.operation = .delete := by
        intro r hr hkey hrt
        by_contra hne
        have hge := not_lt.1 fun hlt ↦ hexisted ⟨r, hr, hkey, hne, hlt⟩
        have hle := historyTime_le_of_order_le (hat.1.2.2.2 r hr hkey hrt)
        obtain rfl := h.eq_of_eventTime_eq hr hat.1.1 hkey (le_antisymm hle hge)
        exact hne hop
      rw [toShow, if_pos hop]
      exact (h.shownAt_eq_nil_iff includeUnknown ht hdeleted).2
        (lt_createdAt hkeeps ⟨c, hat.1.1, rfl, hct⟩ hdeleted)
    · have hfirst : IsFirstExistingRow fns history c := ⟨hat.1.1, hop, fun r hr hkey hrop ↦
        not_lt.1 fun hlt ↦ hexisted ⟨r, hr, hkey, hrop, hlt⟩⟩
      obtain ⟨p, hp, hname, hpfirst, hcovered, -⟩ :=
        h.shownAt_of_first includeUnknown ht hat hfirst hmeets
      obtain ⟨hle, hnone⟩ := hkeeps.first c hfirst hmeets
      rw [hcovered (hle.trans hct), toShow, if_neg hop, shownCategory, hnone p hp hname hpfirst]
      rfl

/-! ### What is shown tells of the history -/

variable (hcurrent : CurrentCategories fns history (buildDimCategory fns includeUnknown history))

include hcurrent

/-- **What is shown is what is to be shown**, under the three conditions. -/
theorem shownAt_eq_toShow (ht : t < openEndedEffectiveTo)
    (hat : IsCategoryAt fns history k t c parent) :
    shownAt (buildDimCategory fns includeUnknown history) k t = toShow c parent := by
  obtain ⟨c', parent', hat', hshown⟩ := hcurrent k t ht ⟨c, hat.1.1, hat.1.2.1, hat.1.2.2.1⟩
  obtain ⟨rfl, rfl⟩ := h.isCategoryAt_unique hat hat'
  exact hshown

/-- The first condition is necessary: at the instant before the row the dimension shows what it
shows at the row. -/
theorem existed_of_current (hc : c ∈ history) (hmeets : MeetsParentLater fns history c)
    (hexisted : ∃ r ∈ history, r.key = c.key ∧ r.operation ≠ .delete ∧
      r.eventTime fns CategoryColumns.updatedAt < c.eventTime fns CategoryColumns.updatedAt)
    (hat' : IsCategoryAt fns history c.key (c.eventTime fns CategoryColumns.updatedAt - 1) c'
      parent') : toShow c none = toShow c' parent' := by
  have hbefore := Int.sub_le_self (c.eventTime fns CategoryColumns.updatedAt) Int.one_nonneg
  have hat : IsCategoryAt fns history c.key (c.eventTime fns CategoryColumns.updatedAt) c none :=
    ⟨h.times.isLastRow hc, hmeets.1⟩
  rw [← h.shownAt_eq_toShow includeUnknown hcurrent (h.ends c hc) hat,
    ← h.shownAt_eq_toShow includeUnknown hcurrent (hbefore.trans_lt (h.ends c hc)) hat']
  exact h.shownAt_of_meetsParentLater includeUnknown (h.ends c hc) hat hmeets.2 hexisted

/-- So is the second: the row is shown from the creation on, with the parent it will have. -/
theorem first_of_current (hc : IsFirstExistingRow fns history c)
    (hmeets : MeetsParentLater fns history c) :
    c.createdAt ≤ c.eventTime fns CategoryColumns.updatedAt ∧
      ∀ p ∈ history, c.payload.parentCategoryId = some p.key →
        (∀ r ∈ history, r.key = p.key →
          p.eventTime fns CategoryColumns.updatedAt ≤ r.eventTime fns CategoryColumns.updatedAt) →
          parentNameOf (some p) = none := by
  have hat : IsCategoryAt fns history c.key (c.eventTime fns CategoryColumns.updatedAt) c none :=
    ⟨h.times.isLastRow hc.1, hmeets.1⟩
  obtain ⟨p, hp, hname, hfirst, hcovered, hnone⟩ :=
    h.shownAt_of_first includeUnknown (h.ends c hc.1) hat hc hmeets
  rw [h.shownAt_eq_toShow includeUnknown hcurrent (h.ends c hc.1) hat, toShow,
    if_neg hc.2.1] at hcovered hnone
  have hle : c.createdAt ≤ c.eventTime fns CategoryColumns.updatedAt :=
    not_lt.1 fun hlt ↦ List.cons_ne_nil _ _ (hnone hlt)
  have hsame := congrArg CategoryAttributes.parentCategoryName
    (List.singleton_inj.1 (hcovered hle))
  refine ⟨hle, fun q hq hqname hqfirst ↦ ?_⟩
  -- the parent has one first row
  have hkey : q.key = p.key := Option.some.inj (hqname.symm.trans hname)
  obtain rfl := h.eq_of_eventTime_eq hq hp hkey
    (le_antisymm (hqfirst p hp hkey.symm) (hfirst q hq hkey))
  exact hsame.symm

/-- And the third: the first version covers the instants after the creation. -/
theorem created_of_current (hc : IsFirstExistingRow fns history c)
    (hearlier : ∃ r ∈ history, r.key = c.key ∧
      r.eventTime fns CategoryColumns.updatedAt < c.eventTime fns CategoryColumns.updatedAt) :
    c.eventTime fns CategoryColumns.updatedAt ≤ c.createdAt := by
  obtain ⟨r, hr, hkey, hrc⟩ := hearlier
  by_contra hlt
  -- an instant after the creation at which all rows are deletes
  have htc : r.eventTime fns CategoryColumns.updatedAt ⊔ c.createdAt <
      c.eventTime fns CategoryColumns.updatedAt := sup_lt_iff.2 ⟨hrc, not_le.1 hlt⟩
  have hend := htc.trans (h.ends c hc.1)
  have hdeleted : ∀ x ∈ history, x.key = c.key → x.eventTime fns CategoryColumns.updatedAt ≤
      r.eventTime fns CategoryColumns.updatedAt ⊔ c.createdAt → x.operation = .delete := by
    intro x hx hkey hxt
    by_contra hop
    exact absurd ((hc.2.2 x hx hkey hop).trans hxt) htc.not_ge
  obtain ⟨c', parent', hat, hnil⟩ := hcurrent c.key _ hend ⟨r, hr, hkey, le_sup_left⟩
  rw [toShow, if_pos (hdeleted c' hat.1.1 hat.1.2.1 hat.1.2.2.1)] at hnil
  have hcreated := (h.shownAt_eq_nil_iff includeUnknown hend hdeleted).1 hnil c hc rfl
  exact absurd hcreated (not_lt.2 le_sup_right)

/-- Where a category shows the same hash throughout, it shows the same: its version keeps the
attributes it began with. -/
theorem hashed_of_current {t' : Timestamp} (htt' : t ≤ t') (ht' : t' < openEndedEffectiveTo)
    (hat : IsJoinedAt fns history k t c parent) (hat' : IsJoinedAt fns history k t' c' parent')
    (hsame : ∀ u x px, t ≤ u → u ≤ t' → IsJoinedAt fns history k u x px →
      x.operation ≠ .delete ∧ shownHash fns x px = shownHash fns c' parent') :
    shownCategory c parent = shownCategory c' parent' := by
  have ht := htt'.trans_lt ht'
  have hop := (hsame t c parent le_rfl htt' hat).1
  have hop' := (hsame t' c' parent' htt' le_rfl hat').1
  obtain ⟨s, hs, hversion, hrow⟩ := h.exists_shownAt includeUnknown ht hat hop
  obtain ⟨s', hs', hversion', hrow'⟩ := h.exists_shownAt includeUnknown ht' hat' hop'
  have hlast := h.isLastAtOrBefore ht hat
  have hlast' := h.isLastAtOrBefore ht' hat'
  have hle := hlast'.2.2 _ hlast.1 (hlast.2.1.trans htt')
  -- no event in between ends the version
  have hstate : ∀ {u x px}, t ≤ u → u ≤ t' → IsJoinedAt fns history k u x px →
      entityState (parentedEvent fns x px) = some (shownHash fns c' parent') := by
    intro u x px htu hut hx
    obtain ⟨hxop, hhash⟩ := hsame u x px htu hut hx
    rw [entityState_of_ne fun hdel ↦ hxop (operation_parentedEvent.1 hdel),
      attributeHash_parentedEvent, hhash]
  have hsame := hversion.2.2 _ hlast.1 hversion.2.1 le_rfl
  have hversion₂ : IsVersionEvent (eventsOfKey (categoryEvents fns history) k) s
      (parentedEvent fns c' parent') := by
    refine ⟨hlast'.1, hversion.2.1.trans hle, fun x hx hsx hxe ↦ ?_⟩
    by_cases hxt : x.eventTime ≤ t
    · exact hversion.2.2 x hx hsx (hlast.2.2 x hx hxt)
    · have hxt' := (eventTime_le_of_eventOrder_le hxe).trans hlast'.2.1
      obtain ⟨y, py, hy, heq⟩ := h.exists_joined_of_mem hx
      rw [heq, hstate (not_le.1 hxt).le hxt' hy, ← hsame, hstate le_rfl htt' hat]
  obtain rfl := versionStart_unique (h.idsOfKey k) hs hs' hversion₂ hversion'
  rw [h.shownAt_eq_toShow includeUnknown hcurrent ht hat.1, toShow, if_neg hop] at hrow
  rw [h.shownAt_eq_toShow includeUnknown hcurrent ht' hat'.1, toShow, if_neg hop'] at hrow'
  exact List.singleton_inj.1 (hrow.trans hrow'.symm)

end CategoryHistory

/-- **`dim_category` shows every category at every instant exactly if rows that meet their parent
only later change nothing, no category is created before it exists, and hashes do not collide.** -/
theorem currentCategories_iff (h : CategoryHistory fns history) (includeUnknown : Bool) :
    CurrentCategories fns history (buildDimCategory fns includeUnknown history) ↔
      KeepsCategories fns history := by
  constructor
  · intro hcurrent
    exact
      { existed := fun c hc hmeets hexisted c' parent' hat' ↦
          h.existed_of_current includeUnknown hcurrent hc hmeets hexisted hat'
        first := fun c hc hmeets ↦ h.first_of_current includeUnknown hcurrent hc hmeets
        created := fun c hc hearlier ↦ h.created_of_current includeUnknown hcurrent hc hearlier
        hashed := fun k t t' c c' parent parent' hle ht' hat hat' hsame ↦
          h.hashed_of_current includeUnknown hcurrent hle ht' hat hat' hsame }
  · intro hkeeps k t ht hfirst
    obtain ⟨c, parent, hat⟩ := CategoryHistory.exists_isCategoryAt hfirst
    refine ⟨c, parent, hat, ?_⟩
    by_cases hjoined : parent = none → NeverMeetsParent fns history c
    · exact h.shownAt_of_joined includeUnknown hkeeps ht ⟨hat, hjoined⟩
    · obtain ⟨rfl, hnever⟩ := Classical.not_imp.1 hjoined
      exact h.shownAt_of_not_joined includeUnknown hkeeps ht hat hnever

/-! ### A parent that is recorded later -/

/-- A category that is inserted at 10 and at 20 renamed and moved below a parent, whose insert has
the given time. -/
def movedCategory (parentInsertedAt : Timestamp) : List (HistoryRow ℤ CategoryColumns) :=
  let row (key : ℤ) (time : Timestamp) (operation : Operation) (id : Char) (parent : Option ℤ) :
      HistoryRow ℤ CategoryColumns :=
    { key := key
      createdAt := time
      payload := ⟨parent, some [id], some [id], some true, some time⟩
      operation := operation
      eventOccurredAt := some time
      historyEventId := [id]
      ingestionMode := .cdc
      order := ⟨some 1, some time, none, none, none, none⟩ }
  [row 2 10 .insert 'a' none, row 2 20 .update 'b' (some 1),
    row 1 parentInsertedAt .insert 'p' none]

/-- Whether the parent is inserted before the move or after it, the history is without ties and
collisions. -/
theorem categoryHistory_moved {time : Timestamp} (h : time = 5 ∨ time = 30) :
    CategoryHistory .plain (movedCategory time) := by
  -- the parents are rows of the history, so finitely many
  have hids : ∀ {history : List (HistoryRow ℤ CategoryColumns)},
      (∀ c ∈ history, ∀ c' ∈ history, ∀ parent ∈ none :: history.map some,
        ∀ parent' ∈ none :: history.map some,
          (parentedEvent .plain c parent).historyEventId =
            (parentedEvent .plain c' parent').historyEventId → c = c' ∧ parent = parent') →
      ∀ c ∈ history, ∀ c' ∈ history, ∀ parent parent', (∀ p ∈ parent, p ∈ history) →
        (∀ p ∈ parent', p ∈ history) →
          (parentedEvent .plain c parent).historyEventId =
            (parentedEvent .plain c' parent').historyEventId → c = c' ∧ parent = parent' := by
    intro history hall c hc c' hc' parent parent' hp hp'
    have hmem : ∀ {parent : Option (HistoryRow ℤ CategoryColumns)}, (∀ p ∈ parent, p ∈ history) →
        parent ∈ none :: history.map some := by
      rintro (- | p) hp
      · exact List.mem_cons_self
      · exact List.mem_cons_of_mem _ (List.mem_map_of_mem (hp p rfl))
    exact hall c hc c' hc' parent (hmem hp) parent' (hmem hp')
  rcases h with rfl | rfl
  all_goals exact
    { times := by unfold DistinctTimes; decide
      ends := by decide
      ids := hids (by decide +kernel) }

/-- Recorded before, the parent is shown from the move on. -/
theorem currentCategories_iff_moved :
    CurrentCategories .plain (movedCategory 5) (buildDimCategory .plain true (movedCategory 5)) ↔
      KeepsCategories .plain (movedCategory 5) :=
  currentCategories_iff (categoryHistory_moved (Or.inl rfl)) true

/-- **Recorded later, the parent holds back the move itself**: the category keeps its old name. -/
theorem not_currentCategories_moved :
    CategoryHistory .plain (movedCategory 30) ∧
      ¬CurrentCategories .plain (movedCategory 30)
        (buildDimCategory .plain true (movedCategory 30)) := by
  have h : CategoryHistory .plain (movedCategory 30) := categoryHistory_moved (Or.inr rfl)
  refine ⟨h, fun hcurrent ↦ ?_⟩
  obtain ⟨c, parent, hat, hshown⟩ := hcurrent 2 25 (by decide) (by decide)
  -- at 25 the last row is the move
  have hlast : IsLastRow .plain CategoryColumns.updatedAt (movedCategory 30) 2 25
      (movedCategory 30)[1] := by
    unfold IsLastRow
    decide +kernel
  obtain rfl := h.ordered.order.isLastRow_unique hat.1 hlast
  have hname : (shownAt (buildDimCategory .plain true (movedCategory 30)) 2 25).map
      (fun shown ↦ shown.categoryName) = [some ['a']] := by decide +kernel
  have hmoved : (toShow (movedCategory 30)[1] parent).map (fun shown ↦ shown.categoryName) =
      [some ['b']] := rfl
  rw [hshown, hmoved] at hname
  exact absurd hname (by decide)

end LakehousePipeline
