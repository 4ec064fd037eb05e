import LakehousePipeline.Gold.HistoryTimelines
import LakehousePipeline.Gold.Scd2Instants

/-!
# `dim_product` and the pointwise join

What `dim_product` is meant to show at an instant is the pair of the variant's last state and the
last state of the product it names, if neither is deleted (`PointwiseJoin`). The events of a variant
are the overlaps of both timelines, and the pair in force at an instant is the last of them that has
begun (`isLastAtOrBefore_productEvent`), so the replay shows it, with one exception.

The first version is pulled back to `variant_created_at`. That is meant for the time before the
first event, but the first version need not start with the first event: a variant whose first pairs
are deleted ones, say because its product was deleted and inserted again by a transaction that began
later than the variant's, has its first version later, and the pull-back then covers instants at
which the pair is known to be deleted. `pointwiseJoin_iff` says that nothing else goes wrong.

## The instants of a variant

From the variant's first event on there is a pair of states in force at every instant
(`JoinableHistories.exists_states`), the states overlap, and so the pair has a joined event. That
event happens when the later of the two states begins, which is at or before the instant, and every
later joined event is of a state that begins later. This is why the last event that has begun is the
pair in force, and the rest is the as-of theorem of one entity.

`CreatedOnceExisting` is what the as-of theorem leaves open: the instants before the first existing
event. If the pair is deleted at all instants from the variant's first event up to the first
existing one, the version that starts there must not be pulled back to before its event, and that is
a matter of `variant_created_at` alone.
-/

namespace LakehousePipeline

open TemporalJoin

variable (fns : SparkFunctions) (products : List (HistoryRow ℤ ProductColumns))
  (variants : List (HistoryRow ℤ VariantColumns))

/-! ### The join in its own terms -/

/-- The last row of a variant at `t`, and the last row of the product it names. -/
def IsPairAt (k : ℤ) (t : Timestamp) (v : HistoryRow ℤ VariantColumns)
    (p : HistoryRow ℤ ProductColumns) : Prop :=
  IsLastRow fns VariantColumns.updatedAt variants k t v ∧ v.payload.productId = some p.key ∧
    IsLastRow fns ProductColumns.updatedAt products p.key t p

/-- One of the rows is a delete. -/
def PairDeleted (v : HistoryRow ℤ VariantColumns) (p : HistoryRow ℤ ProductColumns) : Prop :=
  v.operation = .delete ∨ p.operation = .delete

/-- The attribute hash of a pair, which depends on the rows of the two states only. -/
def pairHash (v : HistoryRow ℤ VariantColumns) (p : HistoryRow ℤ ProductColumns) : Text :=
  (productEvent fns (⟨v, 0, false, none⟩, ⟨p, 0, false, none⟩)).attributeHash

/-- **The dimension shows the pair at every instant** since the variant's first event: no row when
the pair is deleted, and otherwise one, with the hash of the pair. -/
def PointwiseJoin (rows : List ProductRow) : Prop :=
  ∀ (k : ℤ) (t : Timestamp), t < openEndedEffectiveTo →
    (∃ first ∈ variants, first.key = k ∧ first.eventTime fns VariantColumns.updatedAt ≤ t) →
      ∃ v p, IsPairAt fns products variants k t v p ∧
        (PairDeleted v p → coveringRows rows k t = []) ∧
        (¬PairDeleted v p → ∃ row, coveringRows rows k t = [row] ∧
          row.attributeHash = some (pairHash fns v p))

/-- **The histories that can be joined.** -/
structure JoinableHistories : Prop where
  /-- Distinct event times within each product. -/
  productTimes : DistinctTimes fns ProductColumns.updatedAt products
  /-- Distinct event times within each variant. -/
  variantTimes : DistinctTimes fns VariantColumns.updatedAt variants
  /-- Each variant event refers to a product whose first event is not later. -/
  refers : ∀ v ∈ variants, ∃ p ∈ products, v.payload.productId = some p.key ∧
    p.eventTime fns ProductColumns.updatedAt ≤ v.eventTime fns VariantColumns.updatedAt
  /-- Products change before the end of time. -/
  productEnd : ∀ p ∈ products, p.eventTime fns ProductColumns.updatedAt < openEndedEffectiveTo
  /-- Variants change before the end of time. -/
  variantEnd : ∀ v ∈ variants, v.eventTime fns VariantColumns.updatedAt < openEndedEffectiveTo
  /-- The hashed ids of the joined events do not collide. -/
  ids : IdsApart (productEvents fns products variants)

/-- The histories with no event lost to a tie or a hash collision. -/
structure OrderedHistories : Prop where
  /-- No two events of a product tie in the whole order. -/
  productOrder : DistinctOrder fns ProductColumns.updatedAt products
  /-- No two events of a variant tie in the whole order. -/
  variantOrder : DistinctOrder fns VariantColumns.updatedAt variants
  /-- Products change before the end of time. -/
  productEnd : ∀ p ∈ products, p.eventTime fns ProductColumns.updatedAt < openEndedEffectiveTo
  /-- Variants change before the end of time. -/
  variantEnd : ∀ v ∈ variants, v.eventTime fns VariantColumns.updatedAt < openEndedEffectiveTo
  /-- The hashed ids of the joined events do not collide. -/
  ids : IdsApart (productEvents fns products variants)

/-- **Created once existing**: a variant whose pair is deleted at all instants from the variant's
first event up to `s`, but not at `s`, was not created before `s`, as far as its row at `s` says. -/
def CreatedOnceExisting : Prop :=
  ∀ (k : ℤ) (s : Timestamp) (v : HistoryRow ℤ VariantColumns) (p : HistoryRow ℤ ProductColumns),
    IsPairAt fns products variants k s v p → ¬PairDeleted v p →
      (∃ first ∈ variants, first.key = k ∧ first.eventTime fns VariantColumns.updatedAt < s) →
      (∀ u v' p', u < s → IsPairAt fns products variants k u v' p' → PairDeleted v' p') →
        s ≤ v.createdAt

variable {fns products variants}

/-! ### The events of a variant -/

section Events

variable {k : ℤ}

/-- An event of a variant, as the overlap of two states. -/
theorem mem_eventsOfKey_productEvents {e : Scd2Event ProductAttributes ProductType1 ℤ} :
    e ∈ eventsOfKey (productEvents fns products variants) k ↔
      ∃ variant ∈ statesOf fns VariantColumns.updatedAt variants k,
        ∃ product ∈ statesOf fns ProductColumns.updatedAt products product.row.key,
          variant.row.payload.productId = some product.row.key ∧ variant.Overlaps product ∧
            e = productEvent fns (variant, product) := by
  rw [mem_eventsOfKey, productEvents, List.mem_map]
  constructor
  · rintro ⟨⟨⟨variant, product⟩, hjoin, rfl⟩, hkey⟩
    obtain ⟨hvariant, hproduct, hon⟩ := Relational.mem_innerJoin.1 hjoin
    obtain ⟨hname, hoverlap⟩ := of_decide_eq_true hon
    exact ⟨variant, ⟨hvariant, Option.some.inj hkey⟩, product, ⟨hproduct, rfl⟩, hname, hoverlap,
      rfl⟩
  · rintro ⟨variant, ⟨hvariant, rfl⟩, product, ⟨hproduct, -⟩, hname, hoverlap, rfl⟩
    refine ⟨⟨(variant, product), Relational.mem_innerJoin.2 ⟨hvariant, hproduct, ?_⟩, rfl⟩, rfl⟩
    exact decide_eq_true ⟨hname, hoverlap⟩

variable {variant : HistoryState ℤ VariantColumns} {product : HistoryState ℤ ProductColumns}
  (hvariant : variant ∈ statesOf fns VariantColumns.updatedAt variants k)
  (hproduct : product ∈ statesOf fns ProductColumns.updatedAt products product.row.key)
  (hname : variant.row.payload.productId = some product.row.key)

include hvariant hproduct

/-- The joined event is a delete exactly if one of the rows is. -/
theorem operation_productEvent :
    (productEvent fns (variant, product)).operation = .delete ↔
      PairDeleted variant.row product.row := by
  show (if variant.stateDeleted || product.stateDeleted then Operation.delete else .update) =
    .delete ↔ _
  rw [stateDeleted_of_mem_statesOf hvariant, stateDeleted_of_mem_statesOf hproduct, PairDeleted]
  split <;> simp_all

include hname

/-- The rows of states in force are a pair. -/
theorem isPairAt_of_inForce {t : Timestamp} (hvforce : variant.InForce t)
    (hpforce : product.InForce t) :
    IsPairAt fns products variants k t variant.row product.row :=
  ⟨isLastRow_of_inForce hvariant hvforce, hname, isLastRow_of_inForce hproduct hpforce⟩

/-- States in force overlap. -/
theorem productEvent_mem {t : Timestamp} (ht : t < openEndedEffectiveTo)
    (hvforce : variant.InForce t) (hpforce : product.InForce t) :
    productEvent fns (variant, product) ∈ eventsOfKey (productEvents fns products variants) k :=
  mem_eventsOfKey_productEvents.2 ⟨variant, hvariant, product, hproduct, hname,
    overlap_of_inForce ht hvforce hpforce, rfl⟩

end Events

namespace OrderedHistories

variable (h : OrderedHistories fns products variants) {k : ℤ}

include h

/-- The states of a pair. -/
theorem states_of_isPairAt {t : Timestamp} {v : HistoryRow ℤ VariantColumns}
    {p : HistoryRow ℤ ProductColumns} (hpair : IsPairAt fns products variants k t v p) :
    ∃ variant ∈ statesOf fns VariantColumns.updatedAt variants k,
      ∃ product ∈ statesOf fns ProductColumns.updatedAt products product.row.key,
        variant.row = v ∧ product.row = p ∧ variant.InForce t ∧ product.InForce t := by
  obtain ⟨hv, -, hp⟩ := hpair
  obtain ⟨variant, hvariant, hvforce, rfl⟩ := h.variantOrder.exists_inForce_of_isLastRow hv
  obtain ⟨product, hproduct, hpforce, rfl⟩ := h.productOrder.exists_inForce_of_isLastRow hp
  exact ⟨variant, hvariant, product, hproduct, rfl, rfl, hvforce, hpforce⟩

/-- Without ties there is one pair at an instant. -/
theorem isPairAt_unique {t : Timestamp} {v v' : HistoryRow ℤ VariantColumns}
    {p p' : HistoryRow ℤ ProductColumns} (hpair : IsPairAt fns products variants k t v p)
    (hpair' : IsPairAt fns products variants k t v' p') : v = v' ∧ p = p' := by
  obtain rfl := h.variantOrder.isLastRow_unique hpair.1 hpair'.1
  have hkey : p.key = p'.key := Option.some.inj (hpair.2.1.symm.trans hpair'.2.1)
  exact ⟨rfl, h.productOrder.isLastRow_unique hpair.2.2 (hkey ▸ hpair'.2.2)⟩

end OrderedHistories

namespace JoinableHistories

variable (h : JoinableHistories fns products variants) {k : ℤ}

include h

/-- Histories that can be joined lose no event. -/
theorem ordered : OrderedHistories fns products variants where
  productOrder := h.productTimes.distinctOrder
  variantOrder := h.variantTimes.distinctOrder
  productEnd := h.productEnd
  variantEnd := h.variantEnd
  ids := h.ids

/-- Since the variant's first event there is a pair of states in force. -/
theorem exists_states {t : Timestamp} (hfirst : ∃ first ∈ variants, first.key = k ∧
      first.eventTime fns VariantColumns.updatedAt ≤ t) :
    ∃ variant ∈ statesOf fns VariantColumns.updatedAt variants k,
      ∃ product ∈ statesOf fns ProductColumns.updatedAt products product.row.key,
        variant.row.payload.productId = some product.row.key ∧ variant.InForce t ∧
          product.InForce t := by
  obtain ⟨first, hmem, hkey, hle⟩ := hfirst
  obtain ⟨variant, hvariant, hvforce⟩ := exists_inForce hmem hkey hle
  obtain ⟨hrow, -, htime, -⟩ := isLastRow_of_inForce hvariant hvforce
  obtain ⟨p, hp, hname, hple⟩ := h.refers variant.row hrow
  obtain ⟨product, hproduct, hpforce⟩ := exists_inForce hp rfl (hple.trans htime)
  have hpkey : product.row.key = p.key := hproduct.2
  refine ⟨variant, hvariant, product, by rwa [hpkey], by rw [hname, hpkey], hvforce, hpforce⟩

/-- **The pair in force is the last event that has begun.** -/
theorem isLastAtOrBefore_productEvent {t : Timestamp} (ht : t < openEndedEffectiveTo)
    {variant : HistoryState ℤ VariantColumns} {product : HistoryState ℤ ProductColumns}
    (hvariant : variant ∈ statesOf fns VariantColumns.updatedAt variants k)
    (hproduct : product ∈ statesOf fns ProductColumns.updatedAt products product.row.key)
    (hname : variant.row.payload.productId = some product.row.key) (hvforce : variant.InForce t)
    (hpforce : product.InForce t) :
    IsLastAtOrBefore (eventsOfKey (productEvents fns products variants) k) t
      (productEvent fns (variant, product)) := by
  refine ⟨productEvent_mem hvariant hproduct hname ht hvforce hpforce,
    sup_le hvforce.1 hpforce.1, fun x hx hxt ↦ ?_⟩
  obtain ⟨variant', hvariant', product', hproduct', hname', hoverlap, rfl⟩ :=
    mem_eventsOfKey_productEvents.1 hx
  by_cases heq : variant' = variant ∧ product' = product
  · rw [heq.1, heq.2]
  · -- another overlap began earlier, as no state is momentary
    refine (eventOrder_lt_of_eventTime_lt ?_).le
    refine (isTimeline_statesOf k).join_lt (isTimeline_statesOf product.row.key) hvariant hproduct
      hvforce hpforce hvariant' (fun hsame ↦ ?_) hoverlap (le_sup_left.trans hxt)
      (le_sup_right.trans hxt) heq (h.variantTimes.stateTo_ne hvariant')
      (h.productTimes.stateTo_ne hproduct')
    rw [hsame, hname] at hname'
    rwa [Option.some.inj hname']

/-- States that overlap are in force when their event happens. -/
theorem inForce_eventTime {variant : HistoryState ℤ VariantColumns}
    {product : HistoryState ℤ ProductColumns}
    (hvariant : variant ∈ statesOf fns VariantColumns.updatedAt variants k)
    (hproduct : product ∈ statesOf fns ProductColumns.updatedAt products product.row.key)
    (hoverlap : variant.Overlaps product) :
    variant.InForce (productEvent fns (variant, product)).eventTime ∧
      product.InForce (productEvent fns (variant, product)).eventTime := by
  refine ⟨Overlap.inForce_left (isTimeline_statesOf k) hvariant hoverlap
    (h.variantTimes.stateTo_ne hvariant), ?_⟩
  have hswap := Overlap.inForce_left (isTimeline_statesOf product.row.key) hproduct
    (And.symm hoverlap) (h.productTimes.stateTo_ne hproduct)
  rwa [sup_comm] at hswap

/-- What the first existing event says of the instants up to it. -/
theorem pairs_of_isFirstExisting {e : Scd2Event ProductAttributes ProductType1 ℤ}
    (he : IsFirstExisting (eventsOfKey (productEvents fns products variants) k) e) :
    ∃ v p, IsPairAt fns products variants k e.eventTime v p ∧ ¬PairDeleted v p ∧
      e.initialEffectiveFrom = some v.createdAt ∧ e.operation ≠ .seed ∧
        ∀ u v' p', u < e.eventTime → IsPairAt fns products variants k u v' p' →
          PairDeleted v' p' := by
  obtain ⟨hmem, hop, hleast⟩ := he
  obtain ⟨variant, hvariant, product, hproduct, hname, hoverlap, rfl⟩ :=
    mem_eventsOfKey_productEvents.1 hmem
  have hend : (productEvent fns (variant, product)).eventTime < openEndedEffectiveTo := by
    refine sup_lt_iff.2 ⟨?_, ?_⟩
    · rw [stateFrom_of_mem_statesOf hvariant]
      exact h.variantEnd _ (mem_history_of_mem_statesOf hvariant).1
    · rw [stateFrom_of_mem_statesOf hproduct]
      exact h.productEnd _ (mem_history_of_mem_statesOf hproduct).1
  obtain ⟨hvforce, hpforce⟩ := h.inForce_eventTime hvariant hproduct hoverlap
  refine ⟨variant.row, product.row, isPairAt_of_inForce hvariant hproduct hname hvforce hpforce,
    fun hdel ↦ hop ((operation_productEvent hvariant hproduct).2 hdel), rfl, ?_,
    fun u v' p' hu hpair ↦ ?_⟩
  · show (if variant.stateDeleted || product.stateDeleted then Operation.delete else .update) ≠
      .seed
    split <;> exact nofun
  · -- a pair that exists before would have an event before
    by_contra hexists
    obtain ⟨variant', hvariant', product', hproduct', rfl, rfl, hvforce, hpforce⟩ :=
      h.ordered.states_of_isPairAt hpair
    have hle := hleast _ (productEvent_mem hvariant' hproduct' hpair.2.1 (hu.trans hend) hvforce
      hpforce) fun hdel ↦ hexists ((operation_productEvent hvariant' hproduct').1 hdel)
    have htime : (productEvent fns (variant', product')).eventTime ≤ u :=
      sup_le hvforce.1 hpforce.1
    exact absurd ((eventTime_le_of_eventOrder_le hle).trans htime) hu.not_ge

/-- The pair at the first instant at which it exists has the first existing event. -/
theorem exists_isFirstExisting {s : Timestamp} {v : HistoryRow ℤ VariantColumns}
    {p : HistoryRow ℤ ProductColumns} (hpair : IsPairAt fns products variants k s v p)
    (hexists : ¬PairDeleted v p)
    (hbefore : ∀ u v' p', u < s → IsPairAt fns products variants k u v' p' → PairDeleted v' p') :
    s < openEndedEffectiveTo ∧
      ∃ e, IsFirstExisting (eventsOfKey (productEvents fns products variants) k) e ∧
        e.eventTime = s ∧ e.initialEffectiveFrom = some v.createdAt := by
  obtain ⟨hv, hname, hp⟩ := hpair
  -- the pair began at `s`, since it would exist before otherwise
  have hbegin : s = v.eventTime fns VariantColumns.updatedAt ⊔
      p.eventTime fns ProductColumns.updatedAt := by
    by_contra hne
    have hlt := (sup_le hv.2.2.1 hp.2.2.1).lt_of_ne (Ne.symm hne)
    exact hexists (hbefore _ v p hlt
      ⟨hv.mono le_sup_left hlt.le, hname, hp.mono le_sup_right hlt.le⟩)
  have hs : s < openEndedEffectiveTo := by
    rw [hbegin]
    exact sup_lt_iff.2 ⟨h.variantEnd v hv.1, h.productEnd p hp.1⟩
  obtain ⟨variant, hvariant, product, hproduct, rfl, rfl, hvforce, hpforce⟩ :=
    h.ordered.states_of_isPairAt ⟨hv, hname, hp⟩
  have htime : (productEvent fns (variant, product)).eventTime = s := by
    rw [hbegin, ← stateFrom_of_mem_statesOf hvariant, ← stateFrom_of_mem_statesOf hproduct]
    rfl
  refine ⟨hs, productEvent fns (variant, product),
    ⟨productEvent_mem hvariant hproduct hname hs hvforce hpforce,
      fun hdel ↦ hexists ((operation_productEvent hvariant hproduct).1 hdel),
      fun x hx hxop ↦ ?_⟩, htime, rfl⟩
  obtain ⟨variant', hvariant', product', hproduct', hname', hoverlap, rfl⟩ :=
    mem_eventsOfKey_productEvents.1 hx
  obtain ⟨hvforce', hpforce'⟩ := h.inForce_eventTime hvariant' hproduct' hoverlap
  have hge : s ≤ (productEvent fns (variant', product')).eventTime := by
    by_contra hlt
    exact hxop ((operation_productEvent hvariant' hproduct').2 (hbefore _ _ _ (not_le.1 hlt)
      (isPairAt_of_inForce hvariant' hproduct' hname' hvforce' hpforce')))
  rcases hge.lt_or_eq with hlt | heq
  · exact (eventOrder_lt_of_eventTime_lt (htime.trans_lt hlt)).le
  · -- both states are in force at `s`
    rw [← heq] at hvforce' hpforce'
    exact (h.isLastAtOrBefore_productEvent hs hvariant' hproduct' hname' hvforce' hpforce').2.2 _
      (productEvent_mem hvariant hproduct hname hs hvforce hpforce) htime.le

end JoinableHistories

/-! ### The dimension -/

/-- **`dim_product` is the pointwise join exactly if every variant was created once existing.** -/
theorem pointwiseJoin_iff (h : JoinableHistories fns products variants) (includeUnknown : Bool) :
    PointwiseJoin fns products variants (buildDimProduct fns includeUnknown products variants) ↔
      CreatedOnceExisting fns products variants := by
  have hkey : ∀ k, ∀ e ∈ eventsOfKey (productEvents fns products variants) k,
      e.sourceKey = some k := fun k e he ↦ (mem_eventsOfKey.1 he).2
  have hfrom : ∀ (e : Scd2Event ProductAttributes ProductType1 ℤ) (createdAt : Timestamp),
      e.operation ≠ .seed → e.initialEffectiveFrom = some createdAt →
        effectiveFrom e 1 = createdAt ⊓ e.eventTime := by
    intro e createdAt hop hcreated
    rw [effectiveFrom, if_neg hop, if_pos rfl, hcreated]
    rfl
  constructor
  · rintro hjoin k s v p hpair hexists ⟨first, hmem, hfkey, hflt⟩ hbefore
    by_contra hlt
    obtain ⟨hs, e, he, htime, hcreated⟩ := h.exists_isFirstExisting hpair hexists hbefore
    -- an instant after the creation at which the pair is deleted
    set t := first.eventTime fns VariantColumns.updatedAt ⊔ v.createdAt with ht
    have hts : t < s := sup_lt_iff.2 ⟨hflt, not_le.1 hlt⟩
    obtain ⟨v', p', hpair', hnone, -⟩ := hjoin k t (hts.trans hs) ⟨first, hmem, hfkey, le_sup_left⟩
    have hnil := hnone (hbefore t v' p' hts hpair')
    rw [buildDimProduct, coveringRows_withUnknown h.ids] at hnil
    obtain ⟨row, hrow, -⟩ := (covering_before (hkey k) (h.ids.eventsOfKey k) (hts.trans hs) he
      (htime ▸ hts)).1 (by
        obtain ⟨-, -, -, -, -, hseed, -⟩ := h.pairs_of_isFirstExisting he
        rw [hfrom e _ hseed hcreated]
        exact inf_le_left.trans le_sup_right)
    rw [hnil] at hrow
    cases hrow
  · intro hcreated k t ht hfirst
    obtain ⟨variant, hvariant, product, hproduct, hname, hvforce, hpforce⟩ := h.exists_states hfirst
    have hlast := h.isLastAtOrBefore_productEvent ht hvariant hproduct hname hvforce hpforce
    refine ⟨variant.row, product.row, isPairAt_of_inForce hvariant hproduct hname hvforce hpforce,
      fun hdel ↦ ?_, fun hexists ↦ ?_⟩
    · rw [buildDimProduct, coveringRows_withUnknown h.ids, covering_of_deleted (hkey k)
        (h.ids.eventsOfKey k) ht hlast ((operation_productEvent hvariant hproduct).2 hdel)]
      intro e he hte
      obtain ⟨v, p, hpair, hnot, hinitial, hseed, hbefore⟩ := h.pairs_of_isFirstExisting he
      rw [hfrom e _ hseed hinitial]
      obtain ⟨first, hmem, hfkey, hle⟩ := hfirst
      have hs :=
        hcreated k e.eventTime v p hpair hnot ⟨first, hmem, hfkey, hle.trans_lt hte⟩ hbefore
      exact lt_inf_iff.2 ⟨hte.trans_le hs, hte⟩
    · rw [buildDimProduct, coveringRows_withUnknown h.ids]
      obtain ⟨row, -, hrow, -, -, -, hhash⟩ := covering_of_existing (hkey k)
        (h.ids.eventsOfKey k) ht hlast fun hdel ↦
          hexists ((operation_productEvent hvariant hproduct).1 hdel)
      exact ⟨row, hrow, hhash⟩

/-! ### A product that is inserted again -/

/-- A product that is inserted at 5, deleted at 6 and inserted again at 10. -/
def reinsertedProduct : List (HistoryRow ℤ ProductColumns) :=
  let row (time : Timestamp) (operation : Operation) (id : Char) (eventId : ℤ) :
      HistoryRow ℤ ProductColumns :=
    { key := 7
      createdAt := time
      payload := ⟨none, some 1, some 1, none, none, none, none, none, none, none, none, some time⟩
      operation := operation
      eventOccurredAt := some time
      historyEventId := ['p', id]
      ingestionMode := .cdc
      order := ⟨some 1, some eventId, none, none, none, none⟩ }
  [row 5 .insert 'a' 1, row 6 .delete 'b' 2, row 10 .insert 'c' 4]

/-- A variant of it that is inserted at the given time. -/
def variantInsertedAt (time : Timestamp) : List (HistoryRow ℤ VariantColumns) :=
  [{ key := 70
     createdAt := time
     payload := ⟨none, some 7, none, none, none, some 100, none, none, some 5, some 0, none, none,
      none, none, some time⟩
     operation := .insert
     eventOccurredAt := some time
     historyEventId := ['v']
     ingestionMode := .cdc
     order := ⟨some 1, some 5, none, none, none, none⟩ }]

/-- Whether the variant is inserted before the product or after it, the histories can be joined. -/
theorem joinableHistories_reinserted {time : Timestamp} (h : time = 8 ∨ time = 12) :
    JoinableHistories .plain reinsertedProduct (variantInsertedAt time) := by
  rcases h with rfl | rfl
  all_goals exact
    { productTimes := by unfold DistinctTimes; decide
      variantTimes := by unfold DistinctTimes; decide
      refers := by decide
      productEnd := by decide
      variantEnd := by decide
      ids := idsApart_of_nodup (by decide +kernel) }

/-- Inserted after the product, the variant is shown from its insert on. -/
theorem pointwiseJoin_iff_reinserted :
    PointwiseJoin .plain reinsertedProduct (variantInsertedAt 12)
        (buildDimProduct .plain true reinsertedProduct (variantInsertedAt 12)) ↔
      CreatedOnceExisting .plain reinsertedProduct (variantInsertedAt 12) :=
  pointwiseJoin_iff (joinableHistories_reinserted (Or.inr rfl)) true

/-- **Inserted while the product is deleted, the variant is shown at once.** -/
theorem not_pointwiseJoin_reinserted :
    JoinableHistories .plain reinsertedProduct (variantInsertedAt 8) ∧
      ¬PointwiseJoin .plain reinsertedProduct (variantInsertedAt 8)
        (buildDimProduct .plain true reinsertedProduct (variantInsertedAt 8)) := by
  have h : JoinableHistories .plain reinsertedProduct (variantInsertedAt 8) :=
    joinableHistories_reinserted (Or.inl rfl)
  refine ⟨h, fun hjoin ↦ ?_⟩
  obtain ⟨v, p, hpair, hnone, -⟩ := hjoin 70 9 (by decide) (by decide)
  -- at 9 the product was deleted at 6
  have hpair' : ∃ v ∈ variantInsertedAt 8, ∃ p ∈ reinsertedProduct, p.operation = .delete ∧
      IsPairAt .plain reinsertedProduct (variantInsertedAt 8) 70 9 v p := by
    unfold IsPairAt IsLastRow
    decide +kernel
  obtain ⟨v', -, p', -, hdel, hpair'⟩ := hpair'
  obtain ⟨-, rfl⟩ := h.ordered.isPairAt_unique hpair hpair'
  have hcovered : coveringRows (buildDimProduct .plain true reinsertedProduct (variantInsertedAt 8))
      70 9 ≠ [] := by
    have hlength : (coveringRows (buildDimProduct .plain true reinsertedProduct
        (variantInsertedAt 8)) 70 9).length = 1 := by decide +kernel
    exact List.ne_nil_of_length_pos (by rw [hlength]; exact Nat.one_pos)
  exact hcovered (hnone (Or.inr hdel))

end LakehousePipeline
