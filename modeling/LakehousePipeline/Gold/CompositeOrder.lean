import LakehousePipeline.Gold.CategoryJoin
import LakehousePipeline.Gold.ProductJoin

/-!
# Ties among joined events

A joined event takes over, column by column, the greater of the order columns of its two sides. When
several events of one side share an event time, the state of the other side that is in force then is
joined to each of them, so their order is decided by the columns in which the tied rows exceed it;
where it exceeds them, the columns are equal, and what is left is the hash id of the joined events.

The last row of the tied ones wins exactly if its joined event comes out last (`PairTiesInOrder`,
`CategoryTiesInOrder`). Ties on one side only matter: at an instant at which both sides change the
join has the pair of last rows only.

## What is tied

Two events of one side tie if they have one time; the order columns still tell them apart, and the
last of them is the last row of its side. A row of the other side that is in force then has begun
either before, and is joined to each of the tied rows, or at the same time, and then both sides have
a last row and the join has their pair alone. `cases_of_mem` lists what follows for the events of a
time, and the conditions are about the first case only.

The conditions compare joined events by `orderAtTime`, the order columns first and the id after
them. Where the greater columns come from the side that is not tied, all joined events of the time
have equal columns and it is their ids that decide, which are digests and know nothing of the order.

The history is assumed to lose no event to a collision of ids (`OrderedHistories`,
`OrderedCategories`), as colliding events would be dropped before they are sorted.
-/

namespace LakehousePipeline

open TemporalJoin

/-! ### Products and variants -/

section Products

variable (fns : SparkFunctions) (products : List (HistoryRow ℤ ProductColumns))
  (variants : List (HistoryRow ℤ VariantColumns))

/-- The joined event of two rows. -/
def pairEvent (v : HistoryRow ℤ VariantColumns) (p : HistoryRow ℤ ProductColumns) :
    Scd2Event ProductAttributes ProductType1 ℤ :=
  productEvent fns (v.asState fns VariantColumns.updatedAt, p.asState fns ProductColumns.updatedAt)

/-- The current versions of one entity. -/
def currentVersions {A κ V : Type} (rows : List (Scd2Row A κ V)) (k : ℤ) : List (Scd2Row A κ V) :=
  rows.filter fun row ↦ row.sourceKey = some k ∧ row.isCurrent

/-- **Each timeline is respected on ties.** -/
structure PairsReplayedInOrder (rows : List ProductRow) : Prop where
  /-- The last event replayed at a time at which the join has events is the pair of last rows. -/
  last : ∀ k t e, t < openEndedEffectiveTo →
    IsReplayedLast (productEvents fns products variants) k t e → e.eventTime = t →
      ∃ v p, IsPairAt fns products variants k t v p ∧ e = pairEvent fns v p
  /-- The current row carries the pair of last rows. -/
  current : ∀ k v p, IsPairAt fns products variants k openEndedEffectiveTo v p →
    (PairDeleted v p → currentVersions rows k = []) ∧
      (¬PairDeleted v p → ∃ row, currentVersions rows k = [row] ∧
        row.attributeHash = some (pairHash fns v p))

/-- **The other side hides no tie.** -/
structure PairTiesInOrder : Prop where
  /-- Where events of a variant tie at `t` and `p`, which began before, is joined to one of them,
  the last one is joined too and its joined event is not before. -/
  variantTies : ∀ t v v' p, v ∈ variants → v.eventTime fns VariantColumns.updatedAt = t →
    IsLastRow fns VariantColumns.updatedAt variants v.key t v' →
      v.payload.productId = some p.key → IsLastRow fns ProductColumns.updatedAt products p.key t p →
        p.eventTime fns ProductColumns.updatedAt < t →
          ∃ p', IsPairAt fns products variants v.key t v' p' ∧
            orderAtTime (pairEvent fns v p) ≤ orderAtTime (pairEvent fns v' p')
  /-- Where events of a product tie at `t` and `v`, which began before, names it, the joined event
  of the last one is not before that of another. -/
  productTies : ∀ k t v p p', IsLastRow fns VariantColumns.updatedAt variants k t v →
    v.eventTime fns VariantColumns.updatedAt < t → p ∈ products → v.payload.productId = some p.key →
      p.eventTime fns ProductColumns.updatedAt = t →
        IsLastRow fns ProductColumns.updatedAt products p.key t p' →
          orderAtTime (pairEvent fns v p) ≤ orderAtTime (pairEvent fns v p')

variable {fns products variants}

/-- The joined event depends on the rows of the states only. -/
theorem productEvent_eq_pairEvent {k : ℤ} {variant : HistoryState ℤ VariantColumns}
    {product : HistoryState ℤ ProductColumns}
    (hvariant : variant ∈ statesOf fns VariantColumns.updatedAt variants k)
    (hproduct : product ∈ statesOf fns ProductColumns.updatedAt products product.row.key) :
    productEvent fns (variant, product) = pairEvent fns variant.row product.row := by
  rw [productEvent, pairEvent, productEvent, stateFrom_of_mem_statesOf hvariant,
    stateFrom_of_mem_statesOf hproduct, stateDeleted_of_mem_statesOf hvariant,
    stateDeleted_of_mem_statesOf hproduct]
  rfl

namespace OrderedHistories

variable (h : OrderedHistories fns products variants) {k : ℤ} {t : Timestamp}
  {v : HistoryRow ℤ VariantColumns} {p : HistoryRow ℤ ProductColumns}

include h

/-- The pair of last rows is joined. -/
theorem pairEvent_mem (ht : t < openEndedEffectiveTo)
    (hpair : IsPairAt fns products variants k t v p) :
    pairEvent fns v p ∈ eventsOfKey (productEvents fns products variants) k := by
  obtain ⟨variant, hvariant, product, hproduct, rfl, rfl, hvforce, hpforce⟩ :=
    h.states_of_isPairAt hpair
  rw [← productEvent_eq_pairEvent hvariant hproduct]
  exact productEvent_mem hvariant hproduct hpair.2.1 ht hvforce hpforce

/-- A variant row is joined to the product row it begins in the middle of. -/
theorem pairEvent_mem_of_variant (hv : v ∈ variants)
    (hvt : v.eventTime fns VariantColumns.updatedAt = t) (hname : v.payload.productId = some p.key)
    (hp : IsLastRow fns ProductColumns.updatedAt products p.key t p)
    (hpt : p.eventTime fns ProductColumns.updatedAt < t) :
    pairEvent fns v p ∈ eventsOfKey (productEvents fns products variants) v.key := by
  obtain ⟨variant, hvariant, hrow⟩ := exists_mem_statesOf fns VariantColumns.updatedAt hv
  obtain ⟨product, hproduct, hpforce, rfl⟩ := h.productOrder.exists_inForce_of_isLastRow hp
  have ht : t < openEndedEffectiveTo := hvt ▸ h.variantEnd v hv
  rw [← hrow, ← productEvent_eq_pairEvent hvariant hproduct]
  refine mem_eventsOfKey_productEvents.2 ⟨variant, hrow ▸ hvariant, product, hproduct,
    hrow ▸ hname, ?_, rfl⟩
  refine overlap_of_begins (isTimeline_statesOf _) hvariant ht ?_ hpforce ?_
  · rw [stateFrom_of_mem_statesOf hvariant, hrow]
    exact hvt
  · rwa [stateFrom_of_mem_statesOf hproduct]

/-- A product row is joined to the variant row it begins in the middle of. -/
theorem pairEvent_mem_of_product (hv : IsLastRow fns VariantColumns.updatedAt variants k t v)
    (hvt : v.eventTime fns VariantColumns.updatedAt < t) (hp : p ∈ products)
    (hname : v.payload.productId = some p.key)
    (hpt : p.eventTime fns ProductColumns.updatedAt = t) :
    pairEvent fns v p ∈ eventsOfKey (productEvents fns products variants) k := by
  obtain ⟨product, hproduct, hrow⟩ := exists_mem_statesOf fns ProductColumns.updatedAt hp
  obtain ⟨variant, hvariant, hvforce, rfl⟩ := h.variantOrder.exists_inForce_of_isLastRow hv
  have ht : t < openEndedEffectiveTo := hpt ▸ h.productEnd p hp
  subst hrow
  rw [← productEvent_eq_pairEvent hvariant hproduct]
  refine mem_eventsOfKey_productEvents.2 ⟨variant, hvariant, product, hproduct, hname, ?_, rfl⟩
  refine And.symm (overlap_of_begins (isTimeline_statesOf _) hproduct ht ?_ hvforce ?_)
  · rwa [stateFrom_of_mem_statesOf hproduct]
  · rwa [stateFrom_of_mem_statesOf hvariant]

omit h in
/-- **The joined events of a time**: the pair of last rows, or a row that begins in the middle of
the last row of the other side. -/
theorem cases_of_mem {e : Scd2Event ProductAttributes ProductType1 ℤ}
    (he : e ∈ eventsOfKey (productEvents fns products variants) k) (het : e.eventTime = t) :
    ∃ v p, e = pairEvent fns v p ∧ (IsPairAt fns products variants k t v p ∨
      (v ∈ variants ∧ v.key = k ∧ v.eventTime fns VariantColumns.updatedAt = t ∧
        v.payload.productId = some p.key ∧
          IsLastRow fns ProductColumns.updatedAt products p.key t p ∧
            p.eventTime fns ProductColumns.updatedAt < t) ∨
      (IsLastRow fns VariantColumns.updatedAt variants k t v ∧
        v.eventTime fns VariantColumns.updatedAt < t ∧ p ∈ products ∧
          v.payload.productId = some p.key ∧ p.eventTime fns ProductColumns.updatedAt = t)) := by
  obtain ⟨variant, hvariant, product, hproduct, hname, hoverlap, rfl⟩ :=
    mem_eventsOfKey_productEvents.1 he
  obtain ⟨hvmem, hvkey⟩ := mem_history_of_mem_statesOf hvariant
  obtain ⟨hpmem, -⟩ := mem_history_of_mem_statesOf hproduct
  refine ⟨variant.row, product.row, productEvent_eq_pairEvent hvariant hproduct, ?_⟩
  rw [← stateFrom_of_mem_statesOf hvariant, ← stateFrom_of_mem_statesOf hproduct]
  rcases Overlap.begins hoverlap het with ⟨hvforce, hpforce⟩ | ⟨hbegin, hlt, hpforce⟩ |
    ⟨hbegin, hlt, hvforce⟩
  · exact Or.inl (isPairAt_of_inForce hvariant hproduct hname hvforce hpforce)
  · exact Or.inr (Or.inl
      ⟨hvmem, hvkey, hbegin, hname, isLastRow_of_inForce hproduct hpforce, hlt⟩)
  · exact Or.inr (Or.inr ⟨isLastRow_of_inForce hvariant hvforce, hlt, hpmem, hname, hbegin⟩)

/-- **The last event replayed is the pair of last rows if the other side hides no tie.** -/
theorem eq_pairEvent_of_last (hties : PairTiesInOrder fns products variants)
    {e : Scd2Event ProductAttributes ProductType1 ℤ} (ht : t < openEndedEffectiveTo)
    (hlast : IsLastAtOrBefore (eventsOfKey (productEvents fns products variants) k) t e)
    (het : e.eventTime = t) :
    ∃ v p, IsPairAt fns products variants k t v p ∧ e = pairEvent fns v p := by
  have heq : ∀ {v p}, IsPairAt fns products variants k t v p → (pairEvent fns v p).eventTime = t →
      orderAtTime e ≤ orderAtTime (pairEvent fns v p) → e = pairEvent fns v p :=
    fun hpair htime hle ↦ hlast.eq_of_orderAtTime_le (h.ids.eventsOfKey k)
      (h.pairEvent_mem ht hpair) (htime.trans het.symm) hle
  obtain ⟨v, p, rfl, hpair | ⟨hv, rfl, hvt, hname, hp, hpt⟩ | ⟨hv, hvt, hp, hname, hpt⟩⟩ :=
    cases_of_mem hlast.1 het
  · exact ⟨v, p, hpair, rfl⟩
  · -- a tie of the variant
    obtain ⟨s, hs, hforce⟩ := exists_inForce hv rfl hvt.le
    have hv' := isLastRow_of_inForce hs hforce
    obtain ⟨p', hpair, hle⟩ := hties.variantTies t v s.row p hv hvt hv' hname hp hpt
    refine ⟨s.row, p', hpair, heq hpair ?_ hle⟩
    show s.row.eventTime fns _ ⊔ p'.eventTime fns _ = t
    rw [hv'.eventTime_eq hv rfl hvt, sup_eq_left]
    exact hpair.2.2.2.2.1
  · -- a tie of the product
    obtain ⟨s, hs, hforce⟩ := exists_inForce hp rfl hpt.le
    have hp' := isLastRow_of_inForce hs hforce
    have hle := hties.productTies k t v p s.row hv hvt hp hname hpt hp'
    have hpair : IsPairAt fns products variants k t v s.row := by
      refine ⟨hv, ?_, ?_⟩
      · rw [hname, hp'.2.1]
      · rw [hp'.2.1]
        exact hp'
    refine ⟨v, s.row, hpair, heq hpair ?_ hle⟩
    show v.eventTime fns _ ⊔ s.row.eventTime fns _ = t
    rw [hp'.eventTime_eq hp rfl hpt, sup_eq_right]
    exact hvt.le

/-- The pair of the very last rows comes last, if the other side hides no tie. -/
theorem isLastEvent_pairEvent (hties : PairTiesInOrder fns products variants)
    (hpair : IsPairAt fns products variants k openEndedEffectiveTo v p) :
    IsLastEvent (eventsOfKey (productEvents fns products variants) k) (pairEvent fns v p) := by
  obtain ⟨hv, hname, hp⟩ := hpair
  set t := v.eventTime fns VariantColumns.updatedAt ⊔ p.eventTime fns ProductColumns.updatedAt
    with ht
  have htime : (pairEvent fns v p).eventTime = t := rfl
  have hend : t < openEndedEffectiveTo :=
    sup_lt_iff.2 ⟨h.variantEnd v hv.1, h.productEnd p hp.1⟩
  have hvt : IsLastRow fns VariantColumns.updatedAt variants k t v := hv.mono le_sup_left hend.le
  have hpt : IsLastRow fns ProductColumns.updatedAt products p.key t p :=
    hp.mono le_sup_right hend.le
  -- no row is later, so no joined event is
  have hle : ∀ x ∈ eventsOfKey (productEvents fns products variants) k, x.eventTime ≤ t := by
    intro x hx
    by_contra hlt
    have hlt := not_le.1 hlt
    have hvlast : ∀ {r}, IsLastRow fns VariantColumns.updatedAt variants k x.eventTime r → r = v :=
      fun {r} hr ↦ h.variantOrder.eq_of_order_eq hr.1 hv.1 (hr.2.1.trans hv.2.1.symm) <| le_antisymm
        (hv.2.2.2 r hr.1 hr.2.1 (h.variantEnd r hr.1).le)
        (hr.2.2.2 v hv.1 hv.2.1 (hvt.2.2.1.trans hlt.le))
    have hplast : ∀ {r}, r ∈ products → r.key = p.key →
        r.eventTime fns ProductColumns.updatedAt ≤ t := fun {r} hr hkey ↦
      (historyTime_le_of_order_le (hp.2.2.2 r hr hkey (h.productEnd r hr).le)).trans hpt.2.2.1
    obtain ⟨v', p', rfl, hpair' | ⟨hv', hkey', hvx, -⟩ | ⟨hv', -, hp', hname', hpx⟩⟩ :=
      cases_of_mem hx rfl
    · obtain rfl := hvlast hpair'.1
      have hkey : p'.key = p.key := Option.some.inj (hpair'.2.1.symm.trans hname)
      have hp't := hplast hpair'.2.2.1 hkey
      exact absurd (sup_le le_sup_left hp't) (not_le.2 hlt)
    · have hle := historyTime_le_of_order_le (hv.2.2.2 v' hv' hkey' (h.variantEnd v' hv').le)
      exact absurd (hle.trans hvt.2.2.1) (not_le.2 (hvx ▸ hlt))
    · obtain rfl := hvlast hv'
      have hkey : p'.key = p.key := Option.some.inj (hname'.symm.trans hname)
      exact absurd (hplast hp' hkey) (not_le.2 (hpx ▸ hlt))
  have hin := h.pairEvent_mem hend ⟨hvt, hname, hpt⟩
  obtain ⟨e, he⟩ := exists_isReplayedLast h.ids hin htime.le
  have hlast := (isReplayedLast_iff h.ids).1 he
  have het : e.eventTime = t := le_antisymm hlast.2.1
    (eventTime_le_of_eventOrder_le (hlast.2.2 _ hin htime.le))
  obtain ⟨v', p', hpair', rfl⟩ := h.eq_pairEvent_of_last hties hend hlast het
  obtain ⟨rfl, rfl⟩ := h.isPairAt_unique hpair' ⟨hvt, hname, hpt⟩
  exact ⟨hin, fun x hx ↦ hlast.2.2 x hx (hle x hx)⟩

end OrderedHistories

/-- A joined event is a delete exactly if one of its rows is. -/
theorem operation_pairEvent (v : HistoryRow ℤ VariantColumns) (p : HistoryRow ℤ ProductColumns) :
    (pairEvent fns v p).operation = .delete ↔ PairDeleted v p := by
  show (if decide (v.operation = .delete) || decide (p.operation = .delete) then Operation.delete
    else .update) = .delete ↔ _
  rw [PairDeleted]
  split <;> simp_all

/-- **The timelines of products and variants are respected exactly if neither side hides a tie of
the other.** -/
theorem pairsReplayedInOrder_iff (h : OrderedHistories fns products variants)
    (includeUnknown : Bool) :
    PairsReplayedInOrder fns products variants
        (buildDimProduct fns includeUnknown products variants) ↔
      PairTiesInOrder fns products variants := by
  constructor
  · intro hreplay
    -- a joined event is not after that of the last rows
    have hlast : ∀ {k t v p}, t < openEndedEffectiveTo →
        pairEvent fns v p ∈ eventsOfKey (productEvents fns products variants) k →
          (pairEvent fns v p).eventTime = t →
            ∃ v' p', IsPairAt fns products variants k t v' p' ∧
              orderAtTime (pairEvent fns v p) ≤ orderAtTime (pairEvent fns v' p') := by
      rintro k t v p ht hmem rfl
      obtain ⟨e, he, het, hle⟩ := exists_isReplayedLast_eventTime h.ids hmem
      obtain ⟨v', p', hpair, rfl⟩ := hreplay.last k _ e ht he het
      exact ⟨v', p', hpair, hle⟩
    constructor
    · intro t v v' p hv hvt hv' hname hp hpt
      have htime : (pairEvent fns v p).eventTime = t := by
        show v.eventTime fns _ ⊔ p.eventTime fns _ = t
        rw [hvt, sup_eq_left]
        exact hpt.le
      obtain ⟨v₁, p₁, hpair, hle⟩ := hlast (hvt ▸ h.variantEnd v hv)
        (h.pairEvent_mem_of_variant hv hvt hname hp hpt) htime
      obtain rfl := h.variantOrder.isLastRow_unique hpair.1 hv'
      exact ⟨p₁, hpair, hle⟩
    · intro k t v p p' hv hvt hp hname hpt hp'
      have htime : (pairEvent fns v p).eventTime = t := by
        show v.eventTime fns _ ⊔ p.eventTime fns _ = t
        rw [hpt, sup_eq_right]
        exact hvt.le
      obtain ⟨v₁, p₁, hpair, hle⟩ := hlast (hpt ▸ h.productEnd p hp)
        (h.pairEvent_mem_of_product hv hvt hp hname hpt) htime
      obtain rfl := h.variantOrder.isLastRow_unique hpair.1 hv
      have hkey : p₁.key = p.key := Option.some.inj (hpair.2.1.symm.trans hname)
      obtain rfl := h.productOrder.isLastRow_unique (hkey ▸ hpair.2.2) hp'
      exact hle
  · intro hties
    refine ⟨fun k t e ht he het ↦ ?_, fun k v p hpair ↦ ?_⟩
    · exact h.eq_pairEvent_of_last hties ht ((isReplayedLast_iff h.ids).1 he) het
    · obtain ⟨hnone, hone⟩ := current_of_isLastEvent
        (fun e he ↦ (mem_eventsOfKey.1 he).2) (h.ids.eventsOfKey k)
        (h.isLastEvent_pairEvent hties hpair)
      rw [buildDimProduct, currentVersions, filter_withUnknown h.ids]
      refine ⟨fun hdel ↦ ?_, fun hexists ↦ ?_⟩
      · simpa using hnone ((operation_pairEvent v p).2 hdel)
      · obtain ⟨row, hrow, hhash⟩ := hone fun hdel ↦ hexists ((operation_pairEvent v p).1 hdel)
        exact ⟨row, by simpa using hrow, hhash⟩

end Products

/-! ### Categories and parents -/

section Categories

variable (fns : SparkFunctions) (history : List (HistoryRow ℤ CategoryColumns))

/-- **Each timeline is respected on ties**: the last event replayed at a time at which the join has
events is that of the last rows of the category and its parent. -/
def CategoriesReplayedInOrder : Prop :=
  ∀ k t e, t < openEndedEffectiveTo →
    IsReplayedLast (categoryEvents fns history) k t e → e.eventTime = t →
      ∃ c parent, IsCategoryAt fns history k t c parent ∧ e = parentedEvent fns c parent

/-- **The other side hides no tie.** -/
structure CategoryTiesInOrder : Prop where
  /-- Where events of a category tie at `t`, the last one is joined, and its joined event is not
  before that of another, with the parent before `t`. -/
  ownTies : ∀ t c c' parent, c ∈ history → c.eventTime fns CategoryColumns.updatedAt = t →
    IsLastRow fns CategoryColumns.updatedAt history c.key t c' → c ≠ c' →
      IsEarlierParent fns history t c parent →
        ∃ parent', IsCategoryAt fns history c.key t c' parent' ∧
          (parent' = none → NeverMeetsParent fns history c') ∧
            orderAtTime (parentedEvent fns c parent) ≤ orderAtTime (parentedEvent fns c' parent')
  /-- Where events of a parent tie at `t` and `c`, which began before, names it, the joined event of
  the last one is not before that of another. -/
  parentTies : ∀ k t c p p', IsLastRow fns CategoryColumns.updatedAt history k t c →
    c.eventTime fns CategoryColumns.updatedAt < t → p ∈ history →
      c.payload.parentCategoryId = some p.key → p.eventTime fns CategoryColumns.updatedAt = t →
        IsLastRow fns CategoryColumns.updatedAt history p.key t p' →
          orderAtTime (parentedEvent fns c (some p)) ≤ orderAtTime (parentedEvent fns c (some p'))

variable {fns history}

/-- **The timelines of categories and parents are respected exactly if neither side hides a tie of
the other.** -/
theorem categoriesReplayedInOrder_iff (h : OrderedCategories fns history) :
    CategoriesReplayedInOrder fns history ↔ CategoryTiesInOrder fns history := by
  constructor
  · intro hreplay
    -- a joined event is not after that of the last rows
    have hlast : ∀ {k t c parent}, t < openEndedEffectiveTo →
        parentedEvent fns c parent ∈ eventsOfKey (categoryEvents fns history) k →
          (parentedEvent fns c parent).eventTime = t →
            ∃ c' parent', IsCategoryAt fns history k t c' parent' ∧
              (parent' = none → NeverMeetsParent fns history c') ∧
                orderAtTime (parentedEvent fns c parent) ≤
                  orderAtTime (parentedEvent fns c' parent') := by
      rintro k t c parent ht hmem rfl
      obtain ⟨e, he, het, hle⟩ := exists_isReplayedLast_eventTime h.idsApart hmem
      obtain ⟨c', parent', hat, rfl⟩ := hreplay k _ e ht he het
      refine ⟨c', parent', hat, ?_, hle⟩
      -- the rows of a joined event are told by its id
      obtain ⟨c₁, parent₁, hc₁, hin₁, heq, hcase⟩ :=
        h.cases_of_mem ((isReplayedLast_iff h.idsApart).1 he).1 het
      obtain ⟨rfl, rfl⟩ := h.ids c' hat.1.1 c₁ hc₁ parent' parent₁ hat.2.mem hin₁
        (congrArg Scd2Event.historyEventId heq)
      rcases hcase with ⟨-, hnever⟩ | ⟨-, -, hnot, -⟩ | ⟨p, hp, -⟩
      · exact hnever
      · exact absurd hat.1 hnot
      · exact fun hnone ↦ absurd (hnone.symm.trans hp) (Option.some_ne_none p).symm
    constructor
    · intro t c c' parent hc hct hc' hne hparent
      have htime : (parentedEvent fns c parent).eventTime = t := by
        rcases parent with - | p
        · show c.eventTime fns _ ⊔ c.eventTime fns _ = t
          rw [hct, sup_idem]
        · show c.eventTime fns _ ⊔ p.eventTime fns _ = t
          rw [hct, sup_eq_left]
          exact hparent.2.2.le
      have hnot : ¬IsLastRow fns CategoryColumns.updatedAt history c.key t c := fun hlast ↦
        hne (h.order.isLastRow_unique hlast hc')
      obtain ⟨c₁, parent₁, hat, hnever, hle⟩ := hlast (hct ▸ h.ends c hc)
        (h.parentedEvent_mem_of_tie hc hct hnot hparent) htime
      obtain rfl := h.order.isLastRow_unique hat.1 hc'
      exact ⟨parent₁, hat, hnever, hle⟩
    · intro k t c p p' hc hct hp hname hpt hp'
      have htime : (parentedEvent fns c (some p)).eventTime = t := by
        show c.eventTime fns _ ⊔ p.eventTime fns _ = t
        rw [hpt, sup_eq_right]
        exact hct.le
      obtain ⟨c₁, parent₁, hat, -, hle⟩ := hlast (hpt ▸ h.ends p hp)
        (h.parentedEvent_mem_of_parent hc hct hp hname hpt) htime
      obtain rfl := h.order.isLastRow_unique hat.1 hc
      rcases parent₁ with - | p₁
      · exact absurd (hat.2 p hp hname) (not_lt.2 hpt.le)
      · have hkey : p₁.key = p.key := Option.some.inj (hat.2.1.symm.trans hname)
        obtain rfl := h.order.isLastRow_unique (hkey ▸ hat.2.2) hp'
        exact hle
  · intro hties k t e ht he het
    have hreplayed := (isReplayedLast_iff h.idsApart).1 he
    have heq : ∀ {c parent}, IsCategoryAt fns history k t c parent →
        (parent = none → NeverMeetsParent fns history c) →
          (parentedEvent fns c parent).eventTime = t →
            orderAtTime e ≤ orderAtTime (parentedEvent fns c parent) →
              e = parentedEvent fns c parent := by
      intro c parent hat hnever htime hle
      exact hreplayed.eq_of_orderAtTime_le (h.idsApart.eventsOfKey k)
        (h.parentedEvent_mem ht hat hnever) (htime.trans het.symm) hle
    obtain ⟨c, parent, hc, hparent, rfl, ⟨hat, -⟩ | ⟨rfl, hct, hnot, hearlier⟩ |
      ⟨p, rfl, hlast, hct, hp, hname, hpt⟩⟩ := h.cases_of_mem hreplayed.1 het
    · exact ⟨c, parent, hat, rfl⟩
    · -- a tie of the category
      obtain ⟨s, hs, hforce⟩ := exists_inForce hc rfl hct.le
      have hc' := isLastRow_of_inForce hs hforce
      obtain ⟨parent', hat, hnever, hle⟩ := hties.ownTies t c s.row parent hc hct hc'
        (fun hsame ↦ hnot (by rw [← hsame] at hc'; exact hc')) hearlier
      exact ⟨s.row, parent', hat,
        heq hat hnever (eventTime_parentedEvent hat.2 (hc'.eventTime_eq hc rfl hct)) hle⟩
    · -- a tie of the parent
      obtain ⟨s, hs, hforce⟩ := exists_inForce hp rfl hpt.le
      have hp' := isLastRow_of_inForce hs hforce
      have hle := hties.parentTies k t c p s.row hlast hct hp hname hpt hp'
      have hat : IsCategoryAt fns history k t c (some s.row) := by
        refine ⟨hlast, ?_, ?_⟩
        · rw [hname, hp'.2.1]
        · rw [hp'.2.1]
          exact hp'
      refine ⟨c, some s.row, hat, heq hat (fun hnone ↦ by cases hnone) ?_ hle⟩
      show c.eventTime fns _ ⊔ s.row.eventTime fns _ = t
      rw [hp'.eventTime_eq hp rfl hpt, sup_eq_right]
      exact hct.le

end Categories

/-! ### Both joins -/

/-- **Joined events respect each timeline on ties exactly if neither side hides a tie of the
other.** -/
theorem replayedInOrder_iff (fns : SparkFunctions) :
    (∀ products variants, OrderedHistories fns products variants → ∀ includeUnknown,
      (PairsReplayedInOrder fns products variants
          (buildDimProduct fns includeUnknown products variants) ↔
        PairTiesInOrder fns products variants)) ∧
    ∀ history, OrderedCategories fns history →
      (CategoriesReplayedInOrder fns history ↔ CategoryTiesInOrder fns history) :=
  ⟨fun _ _ h includeUnknown ↦ pairsReplayedInOrder_iff h includeUnknown,
    fun _ h ↦ categoriesReplayedInOrder_iff h⟩

/-- A product that is inserted at 5 and updated by a transaction that began at 8 and wrote the
change event with the given number. -/
def updatedProduct (eventId : ℤ) : List (HistoryRow ℤ ProductColumns) :=
  let row (time : Timestamp) (operation : Operation) (id : Char) (eventId : ℤ) :
      HistoryRow ℤ ProductColumns :=
    { key := 7
      createdAt := 5
      payload := ⟨none, some 1, some 1, none, none, none, none, none, none, none, none, some time⟩
      operation := operation
      eventOccurredAt := some time
      historyEventId := ['p', id]
      ingestionMode := .cdc
      order := ⟨some 1, some eventId, none, none, none, none⟩ }
  [row 5 .insert 'a' 3, row 8 .update 'b' eventId]

/-- A variant of it that is inserted and renamed in one transaction. -/
def renamedVariant : List (HistoryRow ℤ VariantColumns) :=
  let row (operation : Operation) (id : Char) (eventId : ℤ) (name : Char) :
      HistoryRow ℤ VariantColumns :=
    { key := 70
      createdAt := 10
      payload := ⟨none, some 7, none, some [name], none, some 100, none, none, some 5, some 0, none,
        none, none, none, some 10⟩
      operation := operation
      eventOccurredAt := some 10
      historyEventId := ['v', id]
      ingestionMode := .cdc
      order := ⟨some 1, some eventId, none, none, none, none⟩ }
  [row .insert 'b' 50 'x', row .update 'a' 51 'y']

/-- What Spark gives for the two joined ids: the SHA-256 digests of the texts, with the instant 10
as it is written in UTC. The other hashes are only compared for equality. -/
def digestFunctions : SparkFunctions :=
  { SparkFunctions.plain with
    sha256 := fun text ↦
      if text = "product||pb||vb||1970-01-01 00:00:00.00001".toList then
        "ee7429247343dfd67c46bcc0fdf42771c06a19cf93d44c38ab8b96a899140529".toList
      else if text = "product||pb||va||1970-01-01 00:00:00.00001".toList then
        "a8540ab09662b5e0ed0ef6e397b078109efe4c32b72ad4f2c399d8ea666eb095".toList
      else text
    castTimestamp := fun t ↦
      if t = 10 then "1970-01-01 00:00:00.00001".toList else SparkFunctions.plain.castTimestamp t }

/-- The two histories are ordered, and no ids collide. -/
theorem orderedHistories_renamed : OrderedHistories .plain (updatedProduct 4) renamedVariant where
  productOrder := by unfold DistinctOrder; decide
  variantOrder := by unfold DistinctOrder; decide
  productEnd := by decide
  variantEnd := by decide
  ids := idsApart_of_nodup (by decide +kernel)

/-- The same with the digests Spark gives. -/
theorem orderedHistories_digests :
    OrderedHistories digestFunctions (updatedProduct 100) renamedVariant where
  productOrder := by unfold DistinctOrder; decide
  variantOrder := by unfold DistinctOrder; decide
  productEnd := by decide
  variantEnd := by decide
  ids := idsApart_of_nodup (by decide +kernel)

/-- The product's update has the smaller number, so the variant's numbers decide. -/
theorem replayedInOrder_iff_renamed :
    PairsReplayedInOrder .plain (updatedProduct 4) renamedVariant
        (buildDimProduct .plain true (updatedProduct 4) renamedVariant) ↔
      PairTiesInOrder .plain (updatedProduct 4) renamedVariant :=
  (replayedInOrder_iff .plain).1 _ _ orderedHistories_renamed true

/-- **The product's update has the greater number, and the variant keeps the name it was inserted
with**: the digest of the joined id of its insert is the greater one. -/
theorem not_replayedInOrder_renamed :
    OrderedHistories digestFunctions (updatedProduct 100) renamedVariant ∧
      ¬PairsReplayedInOrder digestFunctions (updatedProduct 100) renamedVariant
        (buildDimProduct digestFunctions true (updatedProduct 100) renamedVariant) := by
  refine ⟨orderedHistories_digests, fun hreplay ↦ ?_⟩
  have hcurrent : (currentVersions
      (buildDimProduct digestFunctions true (updatedProduct 100) renamedVariant) 70).map
        (fun row ↦ row.attributeHash) ≠
          [some (pairHash digestFunctions renamedVariant[1] (updatedProduct 100)[1])] := by
    decide +kernel
  have hpair : IsPairAt digestFunctions (updatedProduct 100) renamedVariant 70 openEndedEffectiveTo
      renamedVariant[1] (updatedProduct 100)[1] := by
    unfold IsPairAt IsLastRow
    decide +kernel
  obtain ⟨row, hrow, hhash⟩ := (hreplay.current 70 _ _ hpair).2 (by unfold PairDeleted; decide)
  rw [hrow, List.map_singleton, hhash] at hcurrent
  exact hcurrent rfl

end LakehousePipeline
