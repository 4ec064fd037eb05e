import LakehousePipeline.Gold.ProductJoin
import LakehousePipeline.Gold.ScopedReplay

/-!
# The scope of the product step

The product step chooses what to replay by product: it reads the events of the affected products and
the variant events that name one of them. But the timelines it replays are those of variants. As
long as the scope has all events of a variant or none, the step leaves `dim_product` as the full
build of the later histories (`perm_productJob`). A variant that has moved from one product to
another is split by a scope with one of them: its events under the other product are missing from
the timeline that is replayed, so the first version in the scope is taken for the first of the
variant and pulled back to `variant_created_at`, over the versions before
(`not_perm_productJob_moved`).

## Variants in and out of the scope

`WholeVariants` says that of the events of a variant either all name an affected product or none
does. Then the entities fall into two classes, and `ScopedReplay` asks one thing of each:

* a variant in the scope is replayed from all its events, and all events of the products these name
  are read too (`ProductStep.mem_scoped_iff`);
* a variant out of the scope has no new event, and neither have its products; so the events of its
  timeline are what they were (`ProductStep.mem_unscoped_iff`).

What the step deletes is chosen by product as well, by `source_product_id` of the rows. For a
variant that has moved, this takes only the versions under the affected product, while the replay
gives it a first version anew.
-/

namespace LakehousePipeline

open TableLog

/-- The row names an affected product. -/
def NamesAffected (ids : List ℤ) (v : HistoryRow ℤ VariantColumns) : Prop :=
  ∃ id ∈ ids, v.payload.productId = some id

/-- **A product step** over a table that was built from the earlier histories. -/
structure ProductStep (fns : SparkFunctions) (lake : SilverLake) (changes : SilverChanges)
    (log : List (List (GoldRow .dimProduct)))
    (products₀ newProducts : List (HistoryRow ℤ ProductColumns))
    (variants₀ newVariants : List (HistoryRow ℤ VariantColumns)) : Prop where
  /-- The product events, the new ones last. -/
  products : lake.history .products = products₀ ++ newProducts
  /-- The variant events, the new ones last. -/
  variants : lake.history .productVariants = variants₀ ++ newVariants
  /-- The table exists. -/
  nonempty : log ≠ []
  /-- The table is the full build of the earlier histories. -/
  existing : List.Perm (α := ProductRow) (latestRows log)
    (buildDimProduct fns true products₀ variants₀)
  /-- The changed rows cover the new product events. -/
  changedProducts : ∀ p ∈ newProducts, ∃ c ∈ (changes .products).getD [], c.row.key = p.key
  /-- The changed rows cover the new variant events. -/
  changedVariants : ∀ v ∈ newVariants, ∃ c ∈ (changes .productVariants).getD [],
    c.row.key = v.key ∧ VariantColumns.productId c.row.payload = v.payload.productId
  /-- The keys of the earlier build are distinct. The gate of a full build demands it, that of an
  incremental run does not look for duplicate keys. -/
  keys₀ : ((buildDimProduct fns true products₀ variants₀).map fun row ↦ row.surrogateKey).Nodup
  /-- So are the keys of the later build, though no gate may have seen it. -/
  keys : ((buildDimProduct fns true (products₀ ++ newProducts) (variants₀ ++ newVariants)).map
    fun row ↦ row.surrogateKey).Nodup
  /-- The hashed ids of the earlier events do not collide. -/
  ids₀ : IdsApart (productEvents fns products₀ variants₀)
  /-- Nor do those of the later events. -/
  ids : IdsApart (productEvents fns (products₀ ++ newProducts) (variants₀ ++ newVariants))

/-- **What the step has to leave**: the full build of the later histories. -/
def LeavesProducts (fns : SparkFunctions) (lake : SilverLake) (changes : SilverChanges)
    (log : List (List (GoldRow .dimProduct))) : Prop :=
  ∃ log', (productJob fns lake changes (latestRows log)).perform log = some log' ∧
    List.Perm (α := ProductRow) (latestRows log')
      (buildDimProduct fns true (lake.history .products) (lake.history .productVariants))

/-- **No variant is split by the scope.** -/
structure WholeVariants (ids : List ℤ)
    (variants₀ newVariants : List (HistoryRow ℤ VariantColumns)) : Prop where
  /-- A new event names a product. -/
  named : ∀ v ∈ newVariants, v.payload.productId ≠ none
  /-- With one event of a variant the scope has all of them. -/
  whole : ∀ v ∈ variants₀ ++ newVariants, NamesAffected ids v →
    ∀ v' ∈ variants₀ ++ newVariants, v'.key = v.key → NamesAffected ids v'

/-! ### The events of a variant depend on its rows and those of its products -/

section Events

variable {fns : SparkFunctions} {products products' : List (HistoryRow ℤ ProductColumns)}
  {variants variants' : List (HistoryRow ℤ VariantColumns)} {k : ℤ}

/-- The product of an event is the one its variant row names. -/
theorem exists_row_of_mem_productEvents {e : Scd2Event ProductAttributes ProductType1 ℤ}
    (he : e ∈ eventsOfKey (productEvents fns products variants) k) :
    ∃ v ∈ variants, v.key = k ∧ e.attributes.sourceProductId = v.payload.productId := by
  obtain ⟨variant, hvariant, product, -, hname, -, rfl⟩ := mem_eventsOfKey_productEvents.1 he
  obtain ⟨hmem, hkey⟩ := mem_history_of_mem_statesOf hvariant
  exact ⟨variant.row, hmem, hkey, hname.symm⟩

/-- The events of a variant depend on its rows and on those of its products. -/
theorem mem_eventsOfKey_of_filter_eq
    (hvariants : (variants.filter fun v ↦ v.key = k) = variants'.filter fun v ↦ v.key = k)
    (hproducts : ∀ v ∈ variants, v.key = k → ∀ id, v.payload.productId = some id →
      (products.filter fun p ↦ p.key = id) = products'.filter fun p ↦ p.key = id)
    {e : Scd2Event ProductAttributes ProductType1 ℤ}
    (he : e ∈ eventsOfKey (productEvents fns products variants) k) :
    e ∈ eventsOfKey (productEvents fns products' variants') k := by
  obtain ⟨variant, hvariant, product, hproduct, hname, hoverlap, rfl⟩ :=
    mem_eventsOfKey_productEvents.1 he
  obtain ⟨hmem, hkey⟩ := mem_history_of_mem_statesOf hvariant
  refine mem_eventsOfKey_productEvents.2 ⟨variant, ?_, product, ?_, hname, hoverlap, rfl⟩
  · rwa [← statesOf_congr hvariants]
  · rwa [← statesOf_congr (hproducts variant.row hmem hkey _ hname)]

/-- The same in both directions. -/
theorem mem_eventsOfKey_iff_of_filter_eq
    (hvariants : (variants.filter fun v ↦ v.key = k) = variants'.filter fun v ↦ v.key = k)
    (hproducts : ∀ v ∈ variants, v.key = k → ∀ id, v.payload.productId = some id →
      (products.filter fun p ↦ p.key = id) = products'.filter fun p ↦ p.key = id)
    (e : Scd2Event ProductAttributes ProductType1 ℤ) :
    e ∈ eventsOfKey (productEvents fns products variants) k ↔
      e ∈ eventsOfKey (productEvents fns products' variants') k := by
  refine ⟨mem_eventsOfKey_of_filter_eq hvariants hproducts,
    mem_eventsOfKey_of_filter_eq hvariants.symm fun v hv hkey id hname ↦ ?_⟩
  have hmem : v ∈ variants.filter fun v ↦ v.key = k := by
    rw [hvariants]
    exact List.mem_filter.2 ⟨hv, by simpa using hkey⟩
  exact (hproducts v (List.mem_filter.1 hmem).1 hkey id hname).symm

end Events

/-! ### The scope -/

/-- The scope has an event of the variant. -/
def VariantInScope (ids : List ℤ) (variants : List (HistoryRow ℤ VariantColumns)) (k : ℤ) : Prop :=
  ∃ v ∈ variants, v.key = k ∧ NamesAffected ids v

/-- The events the step replays. -/
def scopedEvents (fns : SparkFunctions) (ids : List ℤ)
    (products : List (HistoryRow ℤ ProductColumns))
    (variants : List (HistoryRow ℤ VariantColumns)) :
    List (Scd2Event ProductAttributes ProductType1 ℤ) :=
  productEvents fns (filterIds (fun row ↦ some row.key) ids products)
    (filterIds (fun row ↦ row.payload.productId) ids variants)

/-- The scoped read of the variants has those that name an affected product. -/
theorem mem_filterIds_productId {ids : List ℤ} {variants : List (HistoryRow ℤ VariantColumns)}
    {v : HistoryRow ℤ VariantColumns} :
    v ∈ filterIds (fun row ↦ row.payload.productId) ids variants ↔
      v ∈ variants ∧ NamesAffected ids v :=
  mem_filterIds

namespace ProductStep

variable {fns : SparkFunctions} {lake : SilverLake} {changes : SilverChanges}
  {log : List (List (GoldRow .dimProduct))}
  {products₀ newProducts : List (HistoryRow ℤ ProductColumns)}
  {variants₀ newVariants : List (HistoryRow ℤ VariantColumns)}
  (h : ProductStep fns lake changes log products₀ newProducts variants₀ newVariants)
  (hwhole : WholeVariants (affectedProductIds changes) variants₀ newVariants) {k : ℤ}

include h

/-- A product with a new event is affected. -/
theorem mem_affectedProductIds {p : HistoryRow ℤ ProductColumns} (hp : p ∈ newProducts) :
    p.key ∈ affectedProductIds changes := by
  obtain ⟨c, hc, hkey⟩ := h.changedProducts p hp
  exact List.mem_append_left _ (mem_changedIds.2 ⟨c, hc, congrArg some hkey⟩)

include hwhole

/-- A variant with a new event names an affected product. -/
theorem namesAffected {v : HistoryRow ℤ VariantColumns} (hv : v ∈ newVariants) :
    NamesAffected (affectedProductIds changes) v := by
  obtain ⟨id, hid⟩ := Option.ne_none_iff_exists'.1 (hwhole.named v hv)
  obtain ⟨c, hc, -, hname⟩ := h.changedVariants v hv
  exact ⟨id, List.mem_append_right _ (mem_changedIds.2 ⟨c, hc, hname.trans hid⟩), hid⟩

omit h in
/-- The scoped replay sees all events of a variant in the scope. -/
theorem mem_scoped_iff
    (hk : VariantInScope (affectedProductIds changes) (variants₀ ++ newVariants) k)
    (e : Scd2Event ProductAttributes ProductType1 ℤ) :
    e ∈ eventsOfKey (scopedEvents fns (affectedProductIds changes) (products₀ ++ newProducts)
        (variants₀ ++ newVariants)) k ↔
      e ∈ eventsOfKey
        (productEvents fns (products₀ ++ newProducts) (variants₀ ++ newVariants)) k := by
  obtain ⟨v, hv, rfl, hname⟩ := hk
  refine mem_eventsOfKey_iff_of_filter_eq ?_ (fun v' hv' _ id hid ↦ ?_) e
  · rw [filterIds, List.filter_filter]
    refine List.filter_congr fun v' hv' ↦ ?_
    by_cases hkey : v'.key = v.key
    · obtain ⟨id, hid, hname'⟩ := hwhole.whole v hv hname v' hv' hkey
      simp [hkey, hname', hid]
    · simp [hkey]
  · obtain ⟨-, id', hid', hname'⟩ := mem_filterIds_productId.1 hv'
    obtain rfl : id = id' := Option.some.inj (hid.symm.trans hname')
    exact filter_key_filterIds hid' _

/-- A variant out of the scope has the events it had. -/
theorem mem_unscoped_iff
    (hk : ¬VariantInScope (affectedProductIds changes) (variants₀ ++ newVariants) k)
    (e : Scd2Event ProductAttributes ProductType1 ℤ) :
    e ∈ eventsOfKey (productEvents fns products₀ variants₀) k ↔
      e ∈ eventsOfKey
        (productEvents fns (products₀ ++ newProducts) (variants₀ ++ newVariants)) k := by
  refine mem_eventsOfKey_iff_of_filter_eq ?_ (fun v hv hkey id hid ↦ ?_) e
  · have hnone : (newVariants.filter fun v ↦ v.key = k) = [] :=
      List.filter_eq_nil_iff.2 fun v hv hkey ↦ hk ⟨v, List.mem_append_right _ hv,
        of_decide_eq_true hkey, h.namesAffected hwhole hv⟩
    rw [List.filter_append, hnone, List.append_nil]
  · have hnone : (newProducts.filter fun p ↦ p.key = id) = [] := by
      refine List.filter_eq_nil_iff.2 fun p hp hpk ↦ hk ⟨v, List.mem_append_left _ hv, hkey, id, ?_,
        hid⟩
      rw [← of_decide_eq_true hpk]
      exact h.mem_affectedProductIds hp
    rw [List.filter_append, hnone, List.append_nil]

/-- The ids of the events in the scope do not collide. -/
theorem idsApart_scoped : IdsApart (scopedEvents fns (affectedProductIds changes)
    (products₀ ++ newProducts) (variants₀ ++ newVariants)) := by
  refine h.ids.mono fun e he ↦ ?_
  obtain ⟨k, hkey⟩ : ∃ k, e.sourceKey = some k := by
    rw [scopedEvents, productEvents, List.mem_map] at he
    obtain ⟨o, -, rfl⟩ := he
    exact ⟨_, rfl⟩
  have hevent := mem_eventsOfKey.2 ⟨he, hkey⟩
  obtain ⟨v, hv, hvk, -⟩ := exists_row_of_mem_productEvents hevent
  obtain ⟨hall, hname⟩ := mem_filterIds_productId.1 hv
  exact (mem_eventsOfKey.1 ((mem_scoped_iff hwhole ⟨v, hall, hvk, hname⟩ e).1 hevent)).1

/-- **A scope that splits no variant is a scoped replay.** -/
theorem scopedReplay : ScopedReplay (fun row : ProductRow ↦ row.attributes.sourceProductId)
    (affectedProductIds changes)
    (replaySingleEntityScd2 fns (productEvents fns products₀ variants₀))
    (replaySingleEntityScd2 fns
      (productEvents fns (products₀ ++ newProducts) (variants₀ ++ newVariants)))
    (replaySingleEntityScd2 fns (scopedEvents fns (affectedProductIds changes)
      (products₀ ++ newProducts) (variants₀ ++ newVariants)))
    (VariantInScope (affectedProductIds changes) (variants₀ ++ newVariants)) := by
  have hids := h.idsApart_scoped hwhole
  -- a row belongs to the product that a row of its variant names
  have hrow : ∀ {products variants} {k : ℤ} {row : ProductRow},
      IdsApart (productEvents fns products variants) →
        row ∈ replaySingleEntityScd2 fns (productEvents fns products variants) →
          row.sourceKey = some k →
            ∃ v ∈ variants, v.key = k ∧ row.attributes.sourceProductId = v.payload.productId := by
    intro products variants k row hids hrow hkey
    obtain ⟨e, he, hattributes⟩ := exists_event_of_mem_replay (hids.eventsOfKey k)
      (fun _ he ↦ (mem_eventsOfKey.1 he).2) (mem_replay_eventsOfKey hids hrow hkey)
    obtain ⟨v, hv, hvk, hproduct⟩ := exists_row_of_mem_productEvents he
    exact ⟨v, hv, hvk, by rw [hattributes, hproduct]⟩
  constructor
  · intro row hin
    obtain ⟨k, hkey⟩ := exists_sourceKey_of_mem_replay hin
    obtain ⟨v, hv, hvk, -⟩ := hrow hids hin hkey
    obtain ⟨hall, hname⟩ := mem_filterIds_productId.1 hv
    exact ⟨k, hkey, v, hall, hvk, hname⟩
  · intro k hk
    rw [filter_replay_eq hids, filter_replay_eq h.ids]
    exact replay_congr (hids.eventsOfKey k) (fun _ he ↦ (mem_eventsOfKey.1 he).2)
      (mem_scoped_iff hwhole hk)
  · rintro k ⟨v, hv, rfl, hname⟩ row hin hkey
    obtain ⟨v', hv', hvk, hproduct⟩ := hrow h.ids₀ hin hkey
    obtain ⟨id, hid, hname'⟩ := hwhole.whole v hv hname v' (List.mem_append_left _ hv') hvk
    exact Or.inr ⟨id, hid, hproduct.trans hname'⟩
  · intro k hk
    rw [filter_replay_eq h.ids₀, filter_replay_eq h.ids]
    exact replay_congr (h.ids₀.eventsOfKey k) (fun _ he ↦ (mem_eventsOfKey.1 he).2)
      (h.mem_unscoped_iff hwhole hk)
  · intro k hk row hin hkey id hid hproduct
    obtain ⟨v, hv, hvk, hname⟩ := hrow h.ids₀ hin hkey
    exact hk ⟨v, List.mem_append_left _ hv, hvk, id, hid, hname.symm.trans hproduct⟩

end ProductStep

/-- **The product step leaves the full build of the later histories**, if the scope has all events
of a variant or none. -/
theorem perm_productJob {fns : SparkFunctions} {lake : SilverLake} {changes : SilverChanges}
    {log : List (List (GoldRow .dimProduct))}
    {products₀ newProducts : List (HistoryRow ℤ ProductColumns)}
    {variants₀ newVariants : List (HistoryRow ℤ VariantColumns)}
    (h : ProductStep fns lake changes log products₀ newProducts variants₀ newVariants)
    (hwhole : WholeVariants (affectedProductIds changes) variants₀ newVariants) :
    LeavesProducts fns lake changes log := by
  have hbuild : ∀ products variants, buildDimProduct fns true products variants =
      unknownMember unknownProduct ::
        replaySingleEntityScd2 fns (productEvents fns products variants) := fun _ _ ↦ by
    rw [buildDimProduct, withUnknown_true]
  obtain ⟨result, hresult, hperm⟩ := (h.scopedReplay hwhole).perm_upsertReplayed unknownProduct
    (fun _ hrow ↦ exists_sourceKey_of_mem_replay hrow)
    (fun _ hrow ↦ exists_sourceKey_of_mem_replay hrow) rfl (hbuild _ _ ▸ h.existing)
    (hbuild _ _ ▸ h.keys₀) (hbuild _ _ ▸ h.keys)
  rw [← hbuild, ← h.products, ← h.variants] at hperm
  have hreplayed : buildDimProduct fns false
      (filterIds (fun row ↦ some row.key) (affectedProductIds changes) (lake.history .products))
      (filterIds (fun row ↦ VariantColumns.productId row.payload) (affectedProductIds changes)
        (lake.history .productVariants)) =
      replaySingleEntityScd2 fns (scopedEvents fns (affectedProductIds changes)
        (lake.history .products) (lake.history .productVariants)) := by
    rw [buildDimProduct, withUnknown_false]
    rfl
  rw [← h.products, ← h.variants, ← hreplayed] at hresult
  obtain ⟨log', hlog', hrows⟩ :=
    TableJob.exists_perform_upsert (t := .dimProduct) h.nonempty rfl hresult
  exact ⟨log', hlog', (List.Perm.of_eq hrows).trans hperm⟩

/-! ### A variant that has moved -/

/-- A product, created at 1, with an event at the given time. -/
def productEventAt (key : ℤ) (time : Timestamp) (id : Char) : HistoryRow ℤ ProductColumns where
  key := key
  createdAt := 1
  payload := ⟨none, some 1, some 1, none, none, some [id], none, none, none, none, none, some time⟩
  operation := .update
  eventOccurredAt := some time
  historyEventId := ['p', id]
  ingestionMode := .cdc
  order := ⟨some 1, some time, none, none, none, none⟩

/-- A variant, created at 5, with an event of the given time that names the product. -/
def variantEventAt (productId : ℤ) (time : Timestamp) (id : Char) :
    HistoryRow ℤ VariantColumns where
  key := 70
  createdAt := 5
  payload := ⟨none, some productId, none, none, none, some 100, none, none, some 5, some 0, none,
    none, none, none, some time⟩
  operation := .update
  eventOccurredAt := some time
  historyEventId := ['v', id]
  ingestionMode := .cdc
  order := ⟨some 1, some time, none, none, none, none⟩

/-- The events of a variant that is inserted at 5 in the given product and is in product 8 from 20
on. -/
def movedVariant (productId : ℤ) : List (HistoryRow ℤ VariantColumns) :=
  [variantEventAt productId 5 'a', variantEventAt 8 20 'b']

/-- The events of the products 7 and 8. -/
def twoProducts : List (HistoryRow ℤ ProductColumns) :=
  [productEventAt 7 1 'a', productEventAt 8 1 'b']

/-- Silver after product 8 was renamed. -/
def renamedProductLake (productId : ℤ) : SilverLake where
  tables _ := []
  histories
    | .products => [twoProducts, [productEventAt 8 30 'c']]
    | .productVariants => [movedVariant productId]
    | .appUsers | .shops | .categories | .userAddresses | .vouchers | .orders | .orderItems
    | .orderVouchers | .payments | .shipments => []

/-- The changed row of product 8. -/
def renamedProductChanges : SilverChanges
  | .products => some [⟨.updatePostimage, smallRow 8 (productEventAt 8 30 'c').payload⟩]
  | .appUsers | .shops | .categories | .productVariants | .userAddresses | .vouchers | .orders
  | .orderItems | .orderVouchers | .payments | .shipments => none

/-- `dim_product` before product 8 was renamed. -/
def movedTable (productId : ℤ) : List (List (GoldRow .dimProduct)) :=
  commit [] (buildDimProduct .plain true twoProducts (movedVariant productId))

/-- The table holds the full build of the earlier histories. -/
theorem latestRows_movedTable (productId : ℤ) : latestRows (movedTable productId) =
    buildDimProduct .plain true twoProducts (movedVariant productId) :=
  latestRows_commit (R := GoldRow .dimProduct) [] _

/-- The rename is a product step, wherever the variant was inserted. -/
theorem productStep_renamed {productId : ℤ} (h : productId = 7 ∨ productId = 8) :
    ProductStep .plain (renamedProductLake productId) renamedProductChanges (movedTable productId)
      twoProducts [productEventAt 8 30 'c'] (movedVariant productId) [] := by
  have hexisting : List.Perm (α := ProductRow) (latestRows (movedTable productId))
      (buildDimProduct .plain true twoProducts (movedVariant productId)) :=
    List.Perm.of_eq (latestRows_movedTable productId)
  have hnonempty : movedTable productId ≠ [] := List.cons_ne_nil _ _
  rcases h with rfl | rfl
  all_goals exact
    { products := rfl
      variants := rfl
      nonempty := hnonempty
      existing := hexisting
      changedProducts := by decide
      changedVariants := fun v hv ↦ absurd hv List.not_mem_nil
      keys₀ := by decide +kernel
      keys := by decide +kernel
      ids₀ := idsApart_of_nodup (by decide +kernel)
      ids := idsApart_of_nodup (by decide +kernel) }

/-- Always in product 8, the variant is replayed whole. -/
theorem perm_productJob_renamed :
    LeavesProducts .plain (renamedProductLake 8) renamedProductChanges (movedTable 8) := by
  refine perm_productJob (productStep_renamed (Or.inr rfl))
    ⟨fun v hv ↦ absurd hv List.not_mem_nil, fun v _ _ v' hv' _ ↦ ?_⟩
  have hname : ∀ v ∈ movedVariant 8 ++ [], v.payload.productId = some 8 := by decide
  exact ⟨8, by decide, hname v' hv'⟩

/-- **Moved to product 8 from product 7, the variant gets two versions at once**: that in product 8
is pulled back to the creation of the variant. -/
theorem not_perm_productJob_moved :
    ProductStep .plain (renamedProductLake 7) renamedProductChanges (movedTable 7) twoProducts
        [productEventAt 8 30 'c'] (movedVariant 7) [] ∧
      ¬LeavesProducts .plain (renamedProductLake 7) renamedProductChanges (movedTable 7) := by
  refine ⟨productStep_renamed (Or.inl rfl), fun ⟨log', hlog', hperm⟩ ↦ ?_⟩
  have htwo : ((productJob .plain (renamedProductLake 7) renamedProductChanges
      (latestRows (movedTable 7))).perform (movedTable 7)).map (fun log ↦
        (coveringRows (latestRows log : List ProductRow) 70 10).length) = some 2 := by
    decide +kernel
  have hone : (coveringRows (buildDimProduct .plain true ((renamedProductLake 7).history .products)
      ((renamedProductLake 7).history .productVariants)) 70 10).length = 1 := by decide +kernel
  have hlength := (hperm.filter fun row ↦ row.sourceKey = some 70 ∧ row.Covers 10).length_eq
  rw [hlog'] at htwo
  have hsame := (Option.some.inj htwo).symm.trans (hlength.trans hone)
  exact absurd hsame (by decide)

end LakehousePipeline
