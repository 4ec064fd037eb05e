import LakehousePipeline.Gold.HistoryTimelines
import LakehousePipeline.Gold.Scd2Instants

/-!
# The joined events of a category

A category state is joined to every state of its parent that it overlaps, and to none only if there
is no such state at all. So a state whose parent is first recorded while it lasts has no event
before the parent has (`NeverMeetsParent` fails): the join has nothing to say about the instants in
between.

`cases_of_mem_categoryEvents` lists the events of a category at an instant, in terms of the rows of
the history.

## Instants and states

The join of the source is between states, a row with the instants at which it begins and ends; a
history has rows only. `IsCategoryAt` is the specification in terms of rows: the last row of the
category at an instant, and the last row of the parent it names. `OrderedCategories` is what makes a
row determined by its place in the order, and an event by its id.

The events at an instant `t` fall into three kinds (`cases_of_mem`):

* a category row begins at `t` and is the last one then: it is joined to the parent's last row;
* a category row begins at `t` and ties with a later one, so its state is momentary: it is joined to
  the parent as it was before `t`, if the parent did not change at `t` itself;
* a parent row begins at `t`, in the middle of the last category row: the two are joined.

In each direction there is a lemma, so that later modules can work with rows alone: what is an event
is of one of these kinds, and each kind is an event (`parentedEvent_mem`,
`parentedEvent_mem_of_tie`, `parentedEvent_mem_of_parent`).
-/

namespace LakehousePipeline

open TemporalJoin

variable (fns : SparkFunctions) (history : List (HistoryRow ℤ CategoryColumns))

/-! ### The join in its own terms -/

/-- What is known of the parent of a row at `t`: its last row, or nothing before its first. -/
def IsParentAt (t : Timestamp) (c : HistoryRow ℤ CategoryColumns) :
    Option (HistoryRow ℤ CategoryColumns) → Prop
  | some p => c.payload.parentCategoryId = some p.key ∧
      IsLastRow fns CategoryColumns.updatedAt history p.key t p
  | none => ∀ p ∈ history, c.payload.parentCategoryId = some p.key →
      t < p.eventTime fns CategoryColumns.updatedAt

/-- The last row of a category at `t`, and what is known of its parent then. -/
def IsCategoryAt (k : ℤ) (t : Timestamp) (c : HistoryRow ℤ CategoryColumns)
    (parent : Option (HistoryRow ℤ CategoryColumns)) : Prop :=
  IsLastRow fns CategoryColumns.updatedAt history k t c ∧ IsParentAt fns history t c parent

/-- The parent a row names is recorded only after the next row of the category, if at all. -/
def NeverMeetsParent (c : HistoryRow ℤ CategoryColumns) : Prop :=
  ∀ p ∈ history, c.payload.parentCategoryId = some p.key →
    ∃ next ∈ history, next.key = c.key ∧
      historyOrder fns CategoryColumns.updatedAt c <
        historyOrder fns CategoryColumns.updatedAt next ∧
      next.eventTime fns CategoryColumns.updatedAt ≤ p.eventTime fns CategoryColumns.updatedAt

/-- The joined event of a category row and a parent row, if any. -/
def parentedEvent (c : HistoryRow ℤ CategoryColumns)
    (parent : Option (HistoryRow ℤ CategoryColumns)) : Scd2Event CategoryAttributes Empty ℤ :=
  categoryEvent fns (c.asState fns CategoryColumns.updatedAt,
    parent.map fun p ↦ p.asState fns CategoryColumns.updatedAt)

/-- The history with no event lost to a tie or a hash collision. -/
structure OrderedCategories : Prop where
  /-- No two events of a category tie in the whole order. -/
  order : DistinctOrder fns CategoryColumns.updatedAt history
  /-- Categories change before the end of time. -/
  ends : ∀ c ∈ history, c.eventTime fns CategoryColumns.updatedAt < openEndedEffectiveTo
  /-- The hashed ids of the joined events do not collide. -/
  ids : ∀ c ∈ history, ∀ c' ∈ history, ∀ parent parent', (∀ p ∈ parent, p ∈ history) →
    (∀ p ∈ parent', p ∈ history) →
      (parentedEvent fns c parent).historyEventId = (parentedEvent fns c' parent').historyEventId →
        c = c' ∧ parent = parent'

/-- What was known of the parent of a row just before `t`, unless it changed at `t`. -/
def IsEarlierParent (t : Timestamp) (c : HistoryRow ℤ CategoryColumns) :
    Option (HistoryRow ℤ CategoryColumns) → Prop
  | some p => c.payload.parentCategoryId = some p.key ∧
      IsLastRow fns CategoryColumns.updatedAt history p.key t p ∧
        p.eventTime fns CategoryColumns.updatedAt < t
  | none => ∀ p, c.payload.parentCategoryId = some p.key →
      IsLastRow fns CategoryColumns.updatedAt history p.key t p →
        ¬p.eventTime fns CategoryColumns.updatedAt < t

variable {fns history}

/-- What is known of a parent is a row of the history. -/
theorem IsParentAt.mem {t : Timestamp} {c : HistoryRow ℤ CategoryColumns}
    {parent : Option (HistoryRow ℤ CategoryColumns)} (h : IsParentAt fns history t c parent) :
    ∀ p ∈ parent, p ∈ history := by
  rintro p rfl
  exact h.2.1

/-- The joined event of a last row that began at `t` happens at `t`. -/
theorem eventTime_parentedEvent {t : Timestamp} {c : HistoryRow ℤ CategoryColumns}
    {parent : Option (HistoryRow ℤ CategoryColumns)} (h : IsParentAt fns history t c parent)
    (hct : c.eventTime fns CategoryColumns.updatedAt = t) :
    (parentedEvent fns c parent).eventTime = t := by
  rcases parent with - | p
  · show c.eventTime fns _ ⊔ c.eventTime fns _ = t
    rw [hct, sup_idem]
  · show c.eventTime fns _ ⊔ p.eventTime fns _ = t
    rw [hct, sup_eq_left]
    exact h.2.2.2.1

/-! ### The events of a category -/

/-- An event of a category, as a state and what it is joined to. -/
theorem mem_eventsOfKey_categoryEvents {k : ℤ} {e : Scd2Event CategoryAttributes Empty ℤ} :
    e ∈ eventsOfKey (categoryEvents fns history) k ↔
      ∃ category ∈ statesOf fns CategoryColumns.updatedAt history k,
        (∃ parent ∈ statesOf fns CategoryColumns.updatedAt history parent.row.key,
          category.row.payload.parentCategoryId = some parent.row.key ∧ category.Overlaps parent ∧
            e = categoryEvent fns (category, some parent)) ∨
        ((∀ parent ∈ statesOf fns CategoryColumns.updatedAt history parent.row.key,
          category.row.payload.parentCategoryId = some parent.row.key →
            ¬category.Overlaps parent) ∧ e = categoryEvent fns (category, none)) := by
  rw [mem_eventsOfKey, categoryEvents, List.mem_map]
  constructor
  · rintro ⟨⟨⟨category, parent?⟩, hjoin, rfl⟩, hkey⟩
    obtain ⟨hcategory, ⟨parent, hparent, hon, rfl⟩ | ⟨hno, rfl⟩⟩ := Relational.mem_leftJoin.1 hjoin
    · obtain ⟨hname, hoverlap⟩ := of_decide_eq_true hon
      exact ⟨category, ⟨hcategory, Option.some.inj hkey⟩,
        Or.inl ⟨parent, ⟨hparent, rfl⟩, hname, hoverlap, rfl⟩⟩
    · refine ⟨category, ⟨hcategory, Option.some.inj hkey⟩,
        Or.inr ⟨fun parent hparent hname hoverlap ↦ ?_, rfl⟩⟩
      exact absurd ⟨hname, hoverlap⟩ (of_decide_eq_false (hno parent hparent.1))
  · rintro ⟨category, ⟨hcategory, rfl⟩,
      ⟨parent, ⟨hparent, -⟩, hname, hoverlap, rfl⟩ | ⟨hno, rfl⟩⟩
    · refine ⟨⟨_, Relational.mem_leftJoin.2
        ⟨hcategory, Or.inl ⟨parent, hparent, ?_, rfl⟩⟩, rfl⟩, rfl⟩
      exact decide_eq_true ⟨hname, hoverlap⟩
    · refine ⟨⟨_, Relational.mem_leftJoin.2
        ⟨hcategory, Or.inr ⟨fun parent hparent ↦ ?_, rfl⟩⟩, rfl⟩, rfl⟩
      exact decide_eq_false fun hon ↦ hno parent ⟨hparent, rfl⟩ hon.1 hon.2

/-- The joined event depends on the rows of the states only. -/
theorem categoryEvent_none {k : ℤ} {category : HistoryState ℤ CategoryColumns}
    (hcategory : category ∈ statesOf fns CategoryColumns.updatedAt history k) :
    categoryEvent fns (category, none) = parentedEvent fns category.row none := by
  rw [categoryEvent, parentedEvent, categoryEvent, stateFrom_of_mem_statesOf hcategory,
    stateDeleted_of_mem_statesOf hcategory]
  rfl

/-- The same with a parent. -/
theorem categoryEvent_some {k k' : ℤ} {category parent : HistoryState ℤ CategoryColumns}
    (hcategory : category ∈ statesOf fns CategoryColumns.updatedAt history k)
    (hparent : parent ∈ statesOf fns CategoryColumns.updatedAt history k') :
    categoryEvent fns (category, some parent) =
      parentedEvent fns category.row (some parent.row) := by
  rw [categoryEvent, parentedEvent, categoryEvent, stateFrom_of_mem_statesOf hcategory,
    stateDeleted_of_mem_statesOf hcategory]
  simp only [Option.map_some, Option.bind_some, Option.getD_some,
    stateFrom_of_mem_statesOf hparent, stateDeleted_of_mem_statesOf hparent]
  rfl

/-- What overlaps a state is in force at an instant of it. -/
theorem exists_overlap {category : HistoryState ℤ CategoryColumns}
    {p : HistoryRow ℤ CategoryColumns} {t : Timestamp} (ht : t < openEndedEffectiveTo)
    (hforce : category.InForce t) (hp : p ∈ history)
    (hle : p.eventTime fns CategoryColumns.updatedAt ≤ t) :
    ∃ parent ∈ statesOf fns CategoryColumns.updatedAt history p.key, parent.InForce t ∧
      category.Overlaps parent := by
  obtain ⟨parent, hparent, hpforce⟩ := exists_inForce hp rfl hle
  exact ⟨parent, hparent, hpforce, overlap_of_inForce ht hforce hpforce⟩

namespace OrderedCategories

variable (h : OrderedCategories fns history) {k : ℤ} {t : Timestamp}
  {c : HistoryRow ℤ CategoryColumns}

include h

omit h in
/-- A state that overlaps no parent state has no parent while it is in force. -/
theorem isParentAt_none_of_not_overlaps {category : HistoryState ℤ CategoryColumns}
    (ht : t < openEndedEffectiveTo) (hforce : category.InForce t)
    (hno : ∀ parent ∈ statesOf fns CategoryColumns.updatedAt history parent.row.key,
      category.row.payload.parentCategoryId = some parent.row.key → ¬category.Overlaps parent) :
    IsParentAt fns history t category.row none := by
  intro p hp hname
  by_contra hle
  obtain ⟨parent, hparent, -, hoverlap⟩ := exists_overlap ht hforce hp (not_lt.1 hle)
  exact hno parent (hparent.2 ▸ hparent) (by rw [hname, hparent.2]) hoverlap

/-- **A state that lasts overlaps no parent state exactly if it never meets its parent.** -/
theorem not_overlaps_iff {category : HistoryState ℤ CategoryColumns}
    (hcategory : category ∈ statesOf fns CategoryColumns.updatedAt history k)
    (hlasts : category.stateTo ≠ some category.stateFrom) :
    (∀ parent ∈ statesOf fns CategoryColumns.updatedAt history parent.row.key,
      category.row.payload.parentCategoryId = some parent.row.key → ¬category.Overlaps parent) ↔
        NeverMeetsParent fns history category.row := by
  have hforce := inForce_stateFrom hcategory hlasts
  obtain ⟨hmem, hkey⟩ := mem_history_of_mem_statesOf hcategory
  constructor
  · intro hno p hp hname
    have hstops : ∀ t, category.InForce t → t < openEndedEffectiveTo →
        t < p.eventTime fns CategoryColumns.updatedAt :=
      fun t hforce ht ↦ isParentAt_none_of_not_overlaps ht hforce hno p hp hname
    have hfrom : category.stateFrom < openEndedEffectiveTo := by
      rw [stateFrom_of_mem_statesOf hcategory]
      exact h.ends _ hmem
    -- the instant at which both are recorded
    have hjoin : category.stateFrom ⊔ p.eventTime fns CategoryColumns.updatedAt <
        openEndedEffectiveTo := sup_lt_iff.2 ⟨hfrom, h.ends p hp⟩
    have hends : ¬category.InForce
        (category.stateFrom ⊔ p.eventTime fns CategoryColumns.updatedAt) := fun hforce ↦
      absurd (hstops _ hforce hjoin) (not_lt.2 le_sup_right)
    have hstop : ∃ x, category.stateTo = some x ∧
        x ≤ p.eventTime fns CategoryColumns.updatedAt := by
      by_contra hno
      refine hends ⟨le_sup_left, fun x hx ↦ sup_lt_iff.2 ⟨hforce.2 x hx, ?_⟩⟩
      exact not_le.1 fun hle ↦ hno ⟨x, hx, hle⟩
    obtain ⟨x, hx, hle⟩ := hstop
    obtain ⟨next, hnext, hnkey, htime, hlt⟩ := h.order.exists_next hcategory hx
    exact ⟨next, hnext, hnkey.trans hkey.symm, hlt, htime.le.trans hle⟩
  · intro hnever parent hparent hname hoverlap
    obtain ⟨hpmem, -⟩ := mem_history_of_mem_statesOf hparent
    obtain ⟨next, hnext, hnkey, hlt, hle⟩ := hnever parent.row hpmem hname
    obtain ⟨x, hx, hxle⟩ := exists_stateTo_le hcategory hnext (hnkey.trans hkey) hlt
    have h2 := hoverlap.2
    rw [hx, stateFrom_of_mem_statesOf hparent] at h2
    exact absurd (hxle.trans hle) (not_le.2 h2)

/-- A momentary state overlaps no parent state exactly if the parent changes at its time, or is not
recorded before. -/
theorem not_overlaps_iff_of_momentary {category : HistoryState ℤ CategoryColumns}
    (hcategory : category ∈ statesOf fns CategoryColumns.updatedAt history k)
    (hmomentary : category.stateTo = some category.stateFrom) :
    (∀ parent ∈ statesOf fns CategoryColumns.updatedAt history parent.row.key,
      category.row.payload.parentCategoryId = some parent.row.key → ¬category.Overlaps parent) ↔
        IsEarlierParent fns history category.stateFrom category.row none := by
  constructor
  · intro hno p hname hp hlt
    obtain ⟨parent, hparent, hpforce, rfl⟩ := h.order.exists_inForce_of_isLastRow hp
    have hend : category.stateFrom < openEndedEffectiveTo := by
      rw [stateFrom_of_mem_statesOf hcategory]
      exact h.ends _ (mem_history_of_mem_statesOf hcategory).1
    refine hno parent hparent hname (overlap_of_begins (isTimeline_statesOf k) hcategory hend rfl
      hpforce ?_)
    rwa [stateFrom_of_mem_statesOf hparent]
  · intro hearlier parent hparent hname hoverlap
    have hlt : parent.stateFrom < category.stateFrom := by
      have h2 := hoverlap.2
      rwa [hmomentary] at h2
    have hpforce : parent.InForce category.stateFrom := by
      rcases Overlap.begins hoverlap rfl with ⟨-, hpforce⟩ | ⟨-, -, hpforce⟩ | ⟨-, hgt, -⟩
      · rwa [sup_eq_left.2 hlt.le] at hpforce
      · rwa [sup_eq_left.2 hlt.le] at hpforce
      · rw [sup_eq_left.2 hlt.le] at hgt
        exact absurd hgt (lt_irrefl _)
    refine hearlier parent.row hname (isLastRow_of_inForce hparent hpforce) ?_
    rwa [← stateFrom_of_mem_statesOf hparent]

/-! ### The events at an instant -/

/-- **The joined events of a category at a time**: the last row with its parent, a row tied with a
later one with the parent before it, or the last row with a parent row that begins in the middle of
it. -/
theorem cases_of_mem {e : Scd2Event CategoryAttributes Empty ℤ}
    (he : e ∈ eventsOfKey (categoryEvents fns history) k) (het : e.eventTime = t) :
    ∃ c parent, c ∈ history ∧ (∀ p ∈ parent, p ∈ history) ∧ e = parentedEvent fns c parent ∧
      ((IsCategoryAt fns history k t c parent ∧ (parent = none → NeverMeetsParent fns history c)) ∨
      (c.key = k ∧ c.eventTime fns CategoryColumns.updatedAt = t ∧
        ¬IsLastRow fns CategoryColumns.updatedAt history k t c ∧
          IsEarlierParent fns history t c parent) ∨
      (∃ p, parent = some p ∧ IsLastRow fns CategoryColumns.updatedAt history k t c ∧
        c.eventTime fns CategoryColumns.updatedAt < t ∧ p ∈ history ∧
          c.payload.parentCategoryId = some p.key ∧
            p.eventTime fns CategoryColumns.updatedAt = t)) := by
  obtain ⟨category, hcategory, ⟨parent, hparent, hname, hoverlap, rfl⟩ | ⟨hno, rfl⟩⟩ :=
    mem_eventsOfKey_categoryEvents.1 he
  · obtain ⟨hcmem, hckey⟩ := mem_history_of_mem_statesOf hcategory
    obtain ⟨hpmem, -⟩ := mem_history_of_mem_statesOf hparent
    refine ⟨category.row, some parent.row, hcmem, fun p hp ↦ Option.some.inj hp ▸ hpmem,
      categoryEvent_some hcategory hparent, ?_⟩
    rw [← stateFrom_of_mem_statesOf hcategory]
    -- an overlap begins where the later of the two states does
    rcases Overlap.begins hoverlap het with ⟨hcforce, hpforce⟩ | ⟨hbegin, hlt, hpforce⟩ |
      ⟨hbegin, hlt, hcforce⟩
    · exact Or.inl ⟨⟨isLastRow_of_inForce hcategory hcforce, hname,
        isLastRow_of_inForce hparent hpforce⟩, nofun⟩
    · have hplast := isLastRow_of_inForce hparent hpforce
      by_cases hlast : IsLastRow fns CategoryColumns.updatedAt history k t category.row
      · exact Or.inl ⟨⟨hlast, hname, hplast⟩, nofun⟩
      · refine Or.inr (Or.inl ⟨hckey, hbegin, hlast, hname, hplast, ?_⟩)
        rwa [← stateFrom_of_mem_statesOf hparent]
    · refine Or.inr (Or.inr ⟨parent.row, rfl, isLastRow_of_inForce hcategory hcforce, hlt, hpmem,
        hname, ?_⟩)
      rwa [← stateFrom_of_mem_statesOf hparent]
  · obtain ⟨hcmem, hckey⟩ := mem_history_of_mem_statesOf hcategory
    refine ⟨category.row, none, hcmem, fun p hp ↦ absurd hp (Option.not_mem_none p),
      categoryEvent_none hcategory, ?_⟩
    have hbegin : category.stateFrom = t := by
      rw [← het]
      exact (max_self category.stateFrom).symm
    subst hbegin
    -- a state that is overtaken at once, and one that lasts
    by_cases hlasts : category.stateTo = some category.stateFrom
    · refine Or.inr (Or.inl ⟨hckey, (stateFrom_of_mem_statesOf hcategory).symm,
        h.order.not_isLastRow hcategory hlasts, ?_⟩)
      exact (h.not_overlaps_iff_of_momentary hcategory hlasts).1 hno
    · have hforce := inForce_stateFrom hcategory hlasts
      have hend : category.stateFrom < openEndedEffectiveTo := by
        rw [stateFrom_of_mem_statesOf hcategory]
        exact h.ends _ hcmem
      exact Or.inl ⟨⟨isLastRow_of_inForce hcategory hforce,
        isParentAt_none_of_not_overlaps hend hforce hno⟩,
          fun _ ↦ (h.not_overlaps_iff hcategory hlasts).1 hno⟩

variable {parent : Option (HistoryRow ℤ CategoryColumns)}

/-- The last row of a category is joined to its parent. -/
theorem parentedEvent_mem (ht : t < openEndedEffectiveTo)
    (hat : IsCategoryAt fns history k t c parent)
    (hnever : parent = none → NeverMeetsParent fns history c) :
    parentedEvent fns c parent ∈ eventsOfKey (categoryEvents fns history) k := by
  obtain ⟨hc, hp⟩ := hat
  obtain ⟨category, hcategory, hcforce, rfl⟩ := h.order.exists_inForce_of_isLastRow hc
  refine mem_eventsOfKey_categoryEvents.2 ⟨category, hcategory, ?_⟩
  rcases parent with - | p
  · have hlasts : category.stateTo ≠ some category.stateFrom := fun hto ↦
      absurd (hcforce.2 _ hto) hcforce.1.not_gt
    exact Or.inr ⟨(h.not_overlaps_iff hcategory hlasts).2 (hnever rfl),
      (categoryEvent_none hcategory).symm⟩
  · obtain ⟨hname, hp⟩ := hp
    obtain ⟨parent, hparent, hpforce, rfl⟩ := h.order.exists_inForce_of_isLastRow hp
    exact Or.inl ⟨parent, hparent, hname, overlap_of_inForce ht hcforce hpforce,
      (categoryEvent_some hcategory hparent).symm⟩

/-- A row that is tied with a later one is joined to the parent before it. -/
theorem parentedEvent_mem_of_tie (hc : c ∈ history)
    (hct : c.eventTime fns CategoryColumns.updatedAt = t)
    (hlast : ¬IsLastRow fns CategoryColumns.updatedAt history c.key t c)
    (hp : IsEarlierParent fns history t c parent) :
    parentedEvent fns c parent ∈ eventsOfKey (categoryEvents fns history) c.key := by
  obtain ⟨category, hcategory, rfl⟩ := exists_mem_statesOf fns CategoryColumns.updatedAt hc
  have hbegin : category.stateFrom = t := (stateFrom_of_mem_statesOf hcategory).trans hct
  have hend : t < openEndedEffectiveTo := hct ▸ h.ends _ hc
  refine mem_eventsOfKey_categoryEvents.2 ⟨category, hcategory, ?_⟩
  rcases parent with - | p
  · have hmomentary : category.stateTo = some category.stateFrom := by
      by_contra hlasts
      exact hlast (hbegin ▸ isLastRow_of_inForce hcategory (inForce_stateFrom hcategory hlasts))
    exact Or.inr ⟨(h.not_overlaps_iff_of_momentary hcategory hmomentary).2 (hbegin ▸ hp),
      (categoryEvent_none hcategory).symm⟩
  · obtain ⟨hname, hp, hlt⟩ := hp
    obtain ⟨parent, hparent, hpforce, rfl⟩ := h.order.exists_inForce_of_isLastRow hp
    refine Or.inl ⟨parent, hparent, hname, ?_,
      (categoryEvent_some hcategory hparent).symm⟩
    refine overlap_of_begins (isTimeline_statesOf _) hcategory hend hbegin hpforce ?_
    rwa [stateFrom_of_mem_statesOf hparent]

/-- A parent row is joined to the category row it begins in the middle of. -/
theorem parentedEvent_mem_of_parent {p : HistoryRow ℤ CategoryColumns}
    (hc : IsLastRow fns CategoryColumns.updatedAt history k t c)
    (hct : c.eventTime fns CategoryColumns.updatedAt < t) (hp : p ∈ history)
    (hname : c.payload.parentCategoryId = some p.key)
    (hpt : p.eventTime fns CategoryColumns.updatedAt = t) :
    parentedEvent fns c (some p) ∈ eventsOfKey (categoryEvents fns history) k := by
  obtain ⟨parent, hparent, hrow⟩ := exists_mem_statesOf fns CategoryColumns.updatedAt hp
  obtain ⟨category, hcategory, hcforce, rfl⟩ := h.order.exists_inForce_of_isLastRow hc
  have hend : t < openEndedEffectiveTo := hpt ▸ h.ends p hp
  subst hrow
  refine mem_eventsOfKey_categoryEvents.2 ⟨category, hcategory, Or.inl ⟨parent, hparent, hname, ?_,
    (categoryEvent_some hcategory hparent).symm⟩⟩
  refine And.symm (overlap_of_begins (isTimeline_statesOf _) hparent hend ?_ hcforce ?_)
  · rwa [stateFrom_of_mem_statesOf hparent]
  · rwa [stateFrom_of_mem_statesOf hcategory]

/-- The joined events have ids of their own. -/
theorem idsApart : IdsApart (categoryEvents fns history) := by
  have hrows : ∀ e ∈ categoryEvents fns history, ∃ c ∈ history,
      ∃ parent : Option (HistoryRow ℤ CategoryColumns), (∀ p ∈ parent, p ∈ history) ∧
        e = parentedEvent fns c parent := by
    intro e he
    obtain ⟨k, hk⟩ : ∃ k, e.sourceKey = some k := by
      rw [categoryEvents, List.mem_map] at he
      obtain ⟨o, -, rfl⟩ := he
      exact ⟨_, rfl⟩
    obtain ⟨c, parent, hc, hparent, heq, -⟩ := h.cases_of_mem (mem_eventsOfKey.2 ⟨he, hk⟩) rfl
    exact ⟨c, hc, parent, hparent, heq⟩
  intro e he e' he' hid
  obtain ⟨c, hc, parent, hparent, rfl⟩ := hrows e he
  obtain ⟨c', hc', parent', hparent', rfl⟩ := hrows e' he'
  obtain ⟨rfl, rfl⟩ := h.ids c hc c' hc' parent parent' hparent hparent' hid
  rfl

end OrderedCategories

end LakehousePipeline
