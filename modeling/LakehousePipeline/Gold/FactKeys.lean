import LakehousePipeline.Gold.FactJoins

/-!
# As-of keys of fact rows

What a dimension key of a fact row should be is said on the dimension alone: the key of the version
in force when the order was created, else the key of the member's first version if the order is
older than it, else 0 (`IsAsOfKey`). The category of an item is that of the product version which
the same rule finds. `products.category_id` is `NOT NULL`, so the version found names one; should it
not, the first version's category is taken.

A join finds *a* version, and that it is *the* version in force needs that the ranges of a member
are disjoint. The relation `IsAsOfKey` does not need this: it admits the key of any version whose
range contains the time, and `isAsOfKey_versionKey` holds of every dimension. Disjointness enters
where a version found is compared with another one, for the category of the product version in force
and for the count of the rows.
-/

namespace LakehousePipeline

section AsOf

variable {A κ V : Type}

/-- A version of the member whose range contains the time. -/
def IsInForce (dimension : List (Scd2Row A κ V)) (sourceKey : Option ℤ) (t : Option Timestamp)
    (v : Scd2Row A κ V) : Prop :=
  v ∈ dimension ∧ ∃ k s, sourceKey = some k ∧ t = some s ∧ v.sourceKey = some k ∧ v.Covers s

/-- The member's first version, when the time is before its start. -/
def IsPrehistoric (dimension : List (Scd2Row A κ V)) (sourceKey : Option ℤ) (t : Option Timestamp)
    (v : Scd2Row A κ V) : Prop :=
  ∃ k s, sourceKey = some k ∧ t = some s ∧ IsFirstVersion dimension k v ∧ s < v.effectiveFrom

/-- **The as-of key of a member.** -/
inductive IsAsOfKey (dimension : List (Scd2Row A κ V)) (sourceKey : Option ℤ)
    (t : Option Timestamp) : ℤ → Prop
  /-- A version covers the time. -/
  | inForce (v : Scd2Row A κ V) (h : IsInForce dimension sourceKey t v) :
    IsAsOfKey dimension sourceKey t v.surrogateKey
  /-- No version covers the time, which is before the first one. -/
  | prehistoric (v : Scd2Row A κ V) (hnone : ∀ w, ¬IsInForce dimension sourceKey t w)
    (h : IsPrehistoric dimension sourceKey t v) : IsAsOfKey dimension sourceKey t v.surrogateKey
  /-- Otherwise the member is unknown. -/
  | unknown (hnone : ∀ w, ¬IsInForce dimension sourceKey t w)
    (hfirst : ∀ w, ¬IsPrehistoric dimension sourceKey t w) : IsAsOfKey dimension sourceKey t 0

/-- The version a version join finds is in force. -/
theorem isInForce_of_versionInForce {dimension : List (Scd2Row A κ V)} {sourceKey : Option ℤ}
    {t : Option Timestamp} {v : Scd2Row A κ V}
    (h : versionInForce dimension sourceKey t = some v) : IsInForce dimension sourceKey t v :=
  ⟨(mem_knownVersions.1 (List.mem_of_find?_eq_some h)).1,
    versionMatch_eq_true_iff.1 (List.find?_some h)⟩

/-- Where a version join finds nothing, no version is in force. -/
theorem not_isInForce_of_versionInForce {dimension : List (Scd2Row A κ V)} {sourceKey : Option ℤ}
    {t : Option Timestamp} (h : versionInForce dimension sourceKey t = none)
    (v : Scd2Row A κ V) : ¬IsInForce dimension sourceKey t v := by
  rintro ⟨hv, hmatch⟩
  have hknown : v ∈ knownVersions dimension := by
    obtain ⟨k, s, -, -, hk, -⟩ := hmatch
    exact mem_knownVersions.2 ⟨hv, by rw [hk]; rfl⟩
  exact List.find?_eq_none.1 h v hknown (versionMatch_eq_true_iff.2 hmatch)

/-- With disjoint ranges the version in force is the one the join finds. -/
theorem versionInForce_eq_some {dimension : List (Scd2Row A κ V)}
    (hdisjoint : DisjointVersions dimension) {sourceKey : Option ℤ} {t : Option Timestamp}
    {v : Scd2Row A κ V} (h : IsInForce dimension sourceKey t v) :
    versionInForce dimension sourceKey t = some v := by
  cases hfind : versionInForce dimension sourceKey t with
  | none => exact absurd h (not_isInForce_of_versionInForce hfind v)
  | some w =>
    have hle := length_filter_versionMatch_le_one hdisjoint sourceKey t
    have hknown : v ∈ knownVersions dimension := by
      obtain ⟨k, s, -, -, hk, -⟩ := h.2
      exact mem_knownVersions.2 ⟨h.1, by rw [hk]; rfl⟩
    have hv : v ∈ (knownVersions dimension).filter (versionMatch sourceKey t) :=
      List.mem_filter.2 ⟨hknown, versionMatch_eq_true_iff.2 h.2⟩
    have hw : w ∈ (knownVersions dimension).filter (versionMatch sourceKey t) :=
      List.mem_filter.2 ⟨List.mem_of_find?_eq_some hfind, List.find?_some hfind⟩
    match hlist : (knownVersions dimension).filter (versionMatch sourceKey t) with
    | [] => rw [hlist] at hv; cases hv
    | [u] => rw [hlist, List.mem_singleton] at hv hw; rw [hv, hw]
    | _ :: _ :: _ => rw [hlist] at hle; simp at hle

/-- The first version the join finds, or none when the member has no version. -/
theorem firstVersion_spec (dimension : List (Scd2Row A κ V)) (k : ℤ) :
    (firstVersion dimension (some k) = none ∧ ∀ v ∈ dimension, v.sourceKey ≠ some k) ∨
      ∃ v, IsFirstVersion dimension k v ∧ firstVersion dimension (some k) = some v :=
  find?_firstScd2Version dimension k

/-- Null has no first version. -/
theorem firstVersion_none (dimension : List (Scd2Row A κ V)) : firstVersion dimension none = none :=
  List.find?_eq_none.2 fun _ _ ↦ Bool.false_ne_true

/-- Two first versions of a member start together and have one key. -/
theorem IsFirstVersion.eq {dimension : List (Scd2Row A κ V)} {k : ℤ} {v w : Scd2Row A κ V}
    (hv : IsFirstVersion dimension k v) (hw : IsFirstVersion dimension k w) :
    v.effectiveFrom = w.effectiveFrom ∧ v.surrogateKey = w.surrogateKey := by
  have heq := le_antisymm (hv.2.2 w hw.1 hw.2.1) (hw.2.2 v hv.1 hv.2.1)
  exact Prod.mk.inj (toLex.injective heq)

/-- A null member is the unknown one. -/
theorem IsAsOfKey.eq_zero {dimension : List (Scd2Row A κ V)} {t : Option Timestamp} {key : ℤ}
    (h : IsAsOfKey dimension none t key) : key = 0 := by
  cases h with
  | inForce v h =>
    obtain ⟨-, k, s, hk, -⟩ := h
    cases hk
  | prehistoric v hnone h =>
    obtain ⟨k, s, hk, -⟩ := h
    cases hk
  | unknown => rfl

/-- **The key of a fact row is the as-of key.** -/
theorem isAsOfKey_versionKey (dimension : List (Scd2Row A κ V)) (sourceKey : Option ℤ)
    (t : Option Timestamp) :
    IsAsOfKey dimension sourceKey t (versionKey t (versionInForce dimension sourceKey t)
      (firstVersion dimension sourceKey)) := by
  cases hversion : versionInForce dimension sourceKey t with
  | some v => exact .inForce v (isInForce_of_versionInForce hversion)
  | none =>
    have hnone := not_isInForce_of_versionInForce hversion
    cases sourceKey with
    | none =>
      rw [firstVersion_none]
      refine .unknown hnone ?_
      rintro w ⟨k, s, hk, -⟩
      cases hk
    | some k =>
      rcases firstVersion_spec dimension k with ⟨hfirst, hno⟩ | ⟨v, hv, hfirst⟩
      · rw [hfirst]
        refine .unknown hnone ?_
        rintro w ⟨k', s, hk, -, hw, -⟩
        cases hk
        exact hno w hw.1 hw.2.1
      · rw [hfirst]
        cases t with
        | none =>
          refine .unknown hnone ?_
          rintro w ⟨k', s, -, hs, -⟩
          cases hs
        | some s =>
          -- an order before the first version gets its key, one in a gap gets the unknown member
          rcases lt_or_ge s v.effectiveFrom with hlt | hge
          · have hkey : versionKey (some s) none (some v) = v.surrogateKey := by
              simp [versionKey, hlt]
            rw [hkey]
            exact .prehistoric v hnone ⟨k, s, rfl, rfl, hv, hlt⟩
          · have hkey : versionKey (some s) none (some v) = 0 := by
              simp [versionKey, not_lt.2 hge]
            rw [hkey]
            refine .unknown hnone ?_
            rintro w ⟨k', s', hk, hs, hw, hlt⟩
            cases hk
            cases hs
            rw [← (hv.eq hw).1] at hlt
            exact absurd hlt (not_lt.2 hge)

end AsOf

/-! ### The keys of an item -/

/-- The category key of an item: as of the order, for the category of the product version in force,
or of the product's first version when none is. -/
structure IsCategoryKey (dimensions : FactDimensions) (variantId : Option ℤ)
    (t : Option Timestamp) (key : ℤ) : Prop where
  /-- A product version is in force. -/
  inForce : ∀ p, IsInForce dimensions.dimProduct variantId t p →
    ∀ c, p.attributes.sourceCategoryId = some c →
      IsAsOfKey dimensions.dimCategory (some c) t key
  /-- The version in force names no category: the first version's is taken. -/
  unnamed : ∀ p, IsInForce dimensions.dimProduct variantId t p →
    p.attributes.sourceCategoryId = none → ∃ k first, variantId = some k ∧
      IsFirstVersion dimensions.dimProduct k first ∧
      IsAsOfKey dimensions.dimCategory first.attributes.sourceCategoryId t key
  /-- None is, but the product has versions. -/
  first : (∀ p, ¬IsInForce dimensions.dimProduct variantId t p) → ∀ k, variantId = some k →
    (∃ p ∈ dimensions.dimProduct, p.sourceKey = some k) →
      ∃ p, IsFirstVersion dimensions.dimProduct k p ∧
        IsAsOfKey dimensions.dimCategory p.attributes.sourceCategoryId t key
  /-- The product has no versions at all. -/
  unknown : (∀ k, variantId = some k → ∀ p ∈ dimensions.dimProduct, p.sourceKey ≠ some k) → key = 0

/-- The keys of a fact row are as of its order. -/
structure HasAsOfKeys (tables : FactSources) (dimensions : FactDimensions) (item : OrderItem)
    (fact : FactRow) : Prop where
  customer : IsAsOfKey dimensions.dimCustomer
    ((tables.orderOf item).bind fun o ↦ o.payload.customerId)
    ((tables.orderOf item).map fun o ↦ o.createdAt) fact.customerKey
  shop : IsAsOfKey dimensions.dimShop item.payload.shopId
    ((tables.orderOf item).map fun o ↦ o.createdAt) fact.shopKey
  product : IsAsOfKey dimensions.dimProduct item.payload.productVariantId
    ((tables.orderOf item).map fun o ↦ o.createdAt) fact.productKey
  category : IsCategoryKey dimensions item.payload.productVariantId
    ((tables.orderOf item).map fun o ↦ o.createdAt) fact.categoryKey

section FactKeys

variable {fns : SparkFunctions} {tables : FactSources} {dimensions : FactDimensions}

/-- The category key of a joined item. -/
theorem isCategoryKey_joinItem (hdims : dimensions.Disjoint) (item : OrderItem) :
    IsCategoryKey dimensions item.payload.productVariantId
      ((tables.orderOf item).map fun o ↦ o.createdAt)
      (versionKey ((tables.orderOf item).map fun o ↦ o.createdAt)
        (joinItem fns tables dimensions item).category
        (joinItem fns tables dimensions item).firstCategory) := by
  -- whatever category the product names, the join looks it up as of the order
  have hkey : ∀ categoryId, (joinItem fns tables dimensions item).sourceCategoryId = categoryId →
      IsAsOfKey dimensions.dimCategory categoryId ((tables.orderOf item).map fun o ↦ o.createdAt)
        (versionKey ((tables.orderOf item).map fun o ↦ o.createdAt)
          (joinItem fns tables dimensions item).category
          (joinItem fns tables dimensions item).firstCategory) := by
    rintro _ rfl
    exact isAsOfKey_versionKey _ _ _
  -- the version in force names the category, or else the first one does
  have hsource : (joinItem fns tables dimensions item).sourceCategoryId =
      ((versionInForce dimensions.dimProduct item.payload.productVariantId
          ((tables.orderOf item).map fun o ↦ o.createdAt)).bind fun p ↦
        p.attributes.sourceCategoryId).or
      ((firstVersion dimensions.dimProduct item.payload.productVariantId).bind fun p ↦
        p.attributes.sourceCategoryId) := rfl
  constructor
  case inForce =>
    intro p hp c hc
    refine hkey _ ?_
    rw [hsource, versionInForce_eq_some hdims.dimProduct hp, Option.bind_some, hc, Option.some_or]
  case unnamed =>
    intro p hp hnull
    obtain ⟨hin, k, s, hk, -, hpk, -⟩ := id hp
    rcases firstVersion_spec dimensions.dimProduct k with ⟨-, hno⟩ | ⟨first, hfirst, hfind⟩
    · exact absurd hpk (hno p hin)
    · refine ⟨k, first, hk, hfirst, hkey _ ?_⟩
      rw [hsource, versionInForce_eq_some hdims.dimProduct hp, Option.bind_some, hnull,
        Option.none_or, hk, hfind, Option.bind_some]
  case first =>
    intro hnone k hk hsome
    rcases firstVersion_spec dimensions.dimProduct k with ⟨-, hno⟩ | ⟨p, hp, hfirst⟩
    · obtain ⟨p, hp, hpk⟩ := hsome
      exact absurd hpk (hno p hp)
    · refine ⟨p, hp, hkey _ ?_⟩
      have hversion : versionInForce dimensions.dimProduct item.payload.productVariantId
          ((tables.orderOf item).map fun o ↦ o.createdAt) = none :=
        Option.eq_none_iff_forall_not_mem.2 fun q hq ↦ hnone q (isInForce_of_versionInForce hq)
      rw [hsource, hversion, Option.bind_none, Option.none_or, hk, hfirst, Option.bind_some]
  case unknown =>
    intro hno
    have hversion : versionInForce dimensions.dimProduct item.payload.productVariantId
        ((tables.orderOf item).map fun o ↦ o.createdAt) = none := by
      refine Option.eq_none_iff_forall_not_mem.2 fun q hq ↦ ?_
      obtain ⟨hq, k, s, hk, -, hqk, -⟩ := isInForce_of_versionInForce hq
      exact hno k hk q hq hqk
    have hfirst : firstVersion dimensions.dimProduct item.payload.productVariantId = none := by
      cases hvariant : item.payload.productVariantId with
      | none => exact firstVersion_none _
      | some k =>
        rcases firstVersion_spec dimensions.dimProduct k with ⟨hfirst, -⟩ | ⟨p, hp, -⟩
        · exact hfirst
        · exact absurd hp.2.1 (hno k hvariant p hp.1)
    have hcategory : (joinItem fns tables dimensions item).sourceCategoryId = none := by
      rw [hsource, hversion, hfirst]
      rfl
    exact (hkey none hcategory).eq_zero

/-- The keys of a fact row, whatever the other lines of its order are. -/
theorem hasAsOfKeys_factRow (hdims : dimensions.Disjoint) (item : OrderItem)
    (before after : List JoinedItem) :
    HasAsOfKeys tables dimensions item
      (factRow fns before (joinItem fns tables dimensions item) after) where
  customer := isAsOfKey_versionKey dimensions.dimCustomer
    ((tables.orderOf item).bind fun o ↦ o.payload.customerId)
    ((tables.orderOf item).map fun o ↦ o.createdAt)
  shop := isAsOfKey_versionKey dimensions.dimShop item.payload.shopId
    ((tables.orderOf item).map fun o ↦ o.createdAt)
  product := isAsOfKey_versionKey dimensions.dimProduct item.payload.productVariantId
    ((tables.orderOf item).map fun o ↦ o.createdAt)
  category := isCategoryKey_joinItem hdims item

/-- **One fact row per order item, with as-of keys.** The rows are as many as the items, one for
each, and every key is the key as of the creation of the order. -/
theorem oneFactPerItem_buildFactSales (fns : SparkFunctions) (htables : tables.UniqueKeys)
    (hdims : dimensions.Disjoint) :
    (buildFactSales fns tables dimensions).length = tables.orderItems.length ∧
      ∀ item ∈ tables.orderItems, ∃ fact,
        (buildFactSales fns tables dimensions).filter
          (fun fact ↦ fact.sourceOrderItemId = item.key) = [fact] ∧
        fact.sourceOrderId = item.payload.orderId ∧ HasAsOfKeys tables dimensions item fact := by
  have hperm := map_sourceOrderItemId_perm fns htables hdims
  refine ⟨by simpa using hperm.length_eq, fun item hitem ↦ ?_⟩
  have hkeys : ((buildFactSales fns tables dimensions).map fun f ↦ f.sourceOrderItemId).Nodup :=
    hperm.nodup_iff.2 htables.orderItems
  obtain ⟨fact, hfact, hid⟩ := List.mem_map.1 (hperm.mem_iff.2 (List.mem_map_of_mem hitem))
  have hfilter := Relational.filter_key_eq_singleton hkeys hfact
  rw [hid] at hfilter
  obtain ⟨item', hitem', before, after, rfl⟩ := mem_buildFactSales fns htables hdims hfact
  rw [factRow_sourceOrderItemId, joinItem_item] at hid
  have hsame : item' = item := List.inj_on_of_nodup_map htables.orderItems hitem' hitem hid
  subst hsame
  exact ⟨_, hfilter, factRow_sourceOrderId .., hasAsOfKeys_factRow hdims item' before after⟩

end FactKeys

/-- The rows of the small order: the item without a recorded product has product and category 0, the
other two have the keys of their first shop and category versions. -/
theorem oneFactPerItem_smallOrder :
    (buildFactSales .plain smallSources smallDimensions).length = 3 ∧
      ∀ item ∈ smallSources.orderItems, ∃ fact,
        (buildFactSales .plain smallSources smallDimensions).filter
          (fun fact ↦ fact.sourceOrderItemId = item.key) = [fact] ∧
        fact.sourceOrderId = item.payload.orderId ∧
        HasAsOfKeys smallSources smallDimensions item fact :=
  oneFactPerItem_buildFactSales .plain uniqueKeys_smallSources disjoint_smallDimensions

example : (buildFactSales .plain smallSources smallDimensions).map (fun f ↦
    (f.sourceOrderItemId, f.customerKey, f.shopKey, f.productKey, f.categoryKey)) =
      [(13, 502, 701, 0, 0), (12, 502, 701, 211, 401), (11, 502, 701, 211, 401)] := by
  decide

end LakehousePipeline
