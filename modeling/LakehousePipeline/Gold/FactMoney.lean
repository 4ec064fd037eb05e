import LakehousePipeline.Gold.FactJoins

/-!
# Money of an order

The fact rows of an order are the lines of the order under one window. If the header amounts are the
sums of the line amounts, the sums over the fact rows are the header amounts, to the cent: gross and
tax are copied, and each of the two allocations adds up to what it allocates whatever the weights
are. The two branches of the total discount are two ways to split the header discount, the line
discounts plus the rest of it or all of it.

## Assembly

1. A window over the lines of an order sees one header and the recorded amounts of all lines
   (`LinesOf`), so each of its columns is a function of integers and no null is left.
2. `_residual_allocation` is the residual allocation of the library with the rounded shares as
   weights (`residualAllocation_eq`), and so adds up to the amount it allocates.
3. The total discount is what a line keeps of its own and what it is allocated. `DiscountSplit`
   covers both branches of the source at once: in either of them the kept and the allocated parts
   add up to the header discount (`sum_kept_add_amount`).
4. `FactSums` collects the sums over the fact rows of an order without using the money convention,
   and `FactSums.reconciles` adds it. The two are apart because the readiness check promises the
   first only.
-/

namespace LakehousePipeline

/-! ### Amounts of lines and headers -/

namespace OrderItemColumns

variable (c : OrderItemColumns)

/-- All amounts of a line are recorded, as the source declares them `NOT NULL`. -/
structure HasAmounts : Prop where
  quantity : c.quantity.isSome = true
  unitPrice : c.unitPrice.isSome = true
  taxAmount : c.taxAmount.isSome = true
  discountAmount : c.discountAmount.isSome = true

/-- `quantity * unit_price`. -/
def gross : ℤ :=
  c.quantity.getD 0 * c.unitPrice.getD 0

/-- `tax_amount`. -/
def tax : ℤ :=
  c.taxAmount.getD 0

/-- `discount_amount`. -/
def discount : ℤ :=
  c.discountAmount.getD 0

end OrderItemColumns

/-- **The money convention of an order header**: subtotal and tax are the sums over the lines, and
the total is made of the other four. -/
structure MoneyConvention (header : OrderColumns) (lines : List OrderItem) : Prop where
  lines_hasAmounts : ∀ item ∈ lines, item.payload.HasAmounts
  subtotal : header.subtotalAmount = some (lines.map fun item ↦ item.payload.gross).sum
  tax : header.taxAmount = some (lines.map fun item ↦ item.payload.tax).sum
  shipping : header.shippingAmount.isSome = true
  discount : header.discountAmount.isSome = true
  total : header.totalAmount = minus (plus (plus header.subtotalAmount header.taxAmount)
    header.shippingAmount) header.discountAmount

/-- **The fact rows of an order add up to its header**, the equations `_assert_reconciliation`
checks up to a tolerance. -/
structure Reconciles (header : OrderColumns) (facts : List FactRow) : Prop where
  gross : sumOf (facts.map fun f ↦ f.grossSalesAmount) = header.subtotalAmount
  totalDiscount : sumOf (facts.map fun f ↦ f.totalDiscountAmount) = header.discountAmount
  tax : sumOf (facts.map fun f ↦ f.taxAmount) = header.taxAmount
  shipping : sumOf (facts.map fun f ↦ f.shippingAmountAllocated) = header.shippingAmount
  net : sumOf (facts.map fun f ↦ f.netSalesAmount) = header.totalAmount

/-- The sums over the fact rows of an order: those of its items for gross and tax, the header's for
what is allocated, and the net amount made of the four. -/
structure FactSums (header : OrderColumns) (items : List OrderItem) (facts : List FactRow) :
    Prop where
  gross : sumOf (facts.map fun f ↦ f.grossSalesAmount) =
    some (items.map fun item ↦ item.payload.gross).sum
  totalDiscount : sumOf (facts.map fun f ↦ f.totalDiscountAmount) = header.discountAmount
  tax : sumOf (facts.map fun f ↦ f.taxAmount) = some (items.map fun item ↦ item.payload.tax).sum
  shipping : sumOf (facts.map fun f ↦ f.shippingAmountAllocated) = header.shippingAmount
  net : sumOf (facts.map fun f ↦ f.netSalesAmount) =
    minus (plus (plus (some (items.map fun item ↦ item.payload.gross).sum)
      (some (items.map fun item ↦ item.payload.tax).sum)) header.shippingAmount)
        header.discountAmount

/-- Under the money convention the sums are the header amounts. -/
theorem FactSums.reconciles {header : OrderColumns} {items : List OrderItem} {facts : List FactRow}
    (h : FactSums header items facts) (hmoney : MoneyConvention header items) :
    Reconciles header facts where
  gross := h.gross.trans hmoney.subtotal.symm
  totalDiscount := h.totalDiscount
  tax := h.tax.trans hmoney.tax.symm
  shipping := h.shipping
  net := by rw [h.net, hmoney.total, hmoney.subtotal, hmoney.tax]

/-! ### The window over the lines of one order -/

section Lines

variable {header : OrderColumns} {lines : List JoinedItem}

/-- The lines of a window are lines of one order, with their amounts. -/
def LinesOf (header : OrderColumns) (lines : List JoinedItem) : Prop :=
  ∀ j ∈ lines, (j.order.map fun o ↦ o.payload) = some header ∧ j.item.payload.HasAmounts

/-- The gross of a line with amounts is recorded. -/
theorem gross_eq_some {j : JoinedItem} (h : j.item.payload.HasAmounts) :
    j.gross = some j.item.payload.gross := by
  obtain ⟨q, hq⟩ := Option.isSome_iff_exists.1 h.quantity
  obtain ⟨p, hp⟩ := Option.isSome_iff_exists.1 h.unitPrice
  rw [JoinedItem.gross, OrderItemColumns.gross, hq, hp]
  rfl

/-- So is its tax. -/
theorem taxAmount_eq_some {c : OrderItemColumns} (h : c.HasAmounts) :
    c.taxAmount = some c.tax := by
  obtain ⟨t, ht⟩ := Option.isSome_iff_exists.1 h.taxAmount
  rw [OrderItemColumns.tax, ht, Option.getD_some]

/-- And its discount. -/
theorem discountAmount_eq_some {c : OrderItemColumns} (h : c.HasAmounts) :
    c.discountAmount = some c.discount := by
  obtain ⟨d, hd⟩ := Option.isSome_iff_exists.1 h.discountAmount
  rw [OrderItemColumns.discount, hd, Option.getD_some]

/-- The order's column in a line. -/
theorem bind_order_eq {α : Type} {j : JoinedItem}
    (h : (j.order.map fun o ↦ o.payload) = some header) (column : OrderColumns → Option α) :
    (j.order.bind fun o ↦ column o.payload) = column header := by
  obtain ⟨o, ho, rfl⟩ := Option.map_eq_some_iff.1 h
  rw [ho, Option.bind_some]

/-- A sum of recorded amounts. -/
theorem sumOf_map_eq {α : Type} {rows : List α} (hne : rows ≠ []) {column : α → Option ℤ}
    {amount : α → ℤ} (h : ∀ x ∈ rows, column x = some (amount x)) :
    sumOf (rows.map column) = some (rows.map amount).sum := by
  rw [List.map_congr_left h, ← sumOf_map_some (by simpa using hne), List.map_map]
  rfl

/-- The share of an item, in cents. -/
def share (digits : ℕ) (total grossTotal : ℤ) (item : OrderItem) : ℤ :=
  if 0 < grossTotal then Allocation.roundQuotient digits (total * item.payload.gross) grossTotal
  else 0

/-- **`_residual_allocation` is the residual allocation of the rounded shares.** -/
theorem residualAllocation_eq (hlines : LinesOf header lines) (digits : ℕ)
    {total : JoinedItem → Option ℤ} {amount : ℤ} (htotal : ∀ j ∈ lines, total j = some amount)
    {before after : List JoinedItem} {j : JoinedItem} (hsplit : lines = before ++ j :: after) :
    residualAllocation digits total before j after = some (Allocation.residual
      (fun j ↦ share digits amount (lines.map fun j ↦ j.item.payload.gross).sum j.item) amount
        before j after) := by
  have hne : lines ≠ [] := by simp [hsplit]
  have hj : j ∈ lines := by simp [hsplit]
  have hgross : sumOf (lines.map JoinedItem.gross) =
      some (lines.map fun j ↦ j.item.payload.gross).sum :=
    sumOf_map_eq hne fun j hj ↦ gross_eq_some (hlines j hj).2
  have hraw : ∀ x ∈ lines,
      rawShare digits (total x) x.gross (sumOf (lines.map JoinedItem.gross)) =
        some (share digits amount (lines.map fun j ↦ j.item.payload.gross).sum x.item) := by
    intro x hx
    rw [hgross, htotal x hx, gross_eq_some (hlines x hx).2, rawShare, share, times_some]
    split <;> rfl
  have hsum := sumOf_map_eq hne hraw
  simp only [residualAllocation, Allocation.residual, ← hsplit]
  rw [hsum, hraw j hj, htotal j hj]
  split <;> rfl

/-- The column of a window whose entries are all recorded. -/
theorem sumOf_overRows {α : Type} {rows : List α} (hne : rows ≠ [])
    {column : List α → α → List α → Option ℤ} {amount : List α → α → List α → ℤ}
    (h : ∀ before x after, rows = before ++ x :: after →
      column before x after = some (amount before x after)) :
    sumOf (Window.overRows column rows) = some (Window.overRows amount rows).sum := by
  rw [Window.overRows_congr h]
  have hmap : Window.overRows (fun before x after ↦ some (amount before x after)) rows =
      (Window.overRows amount rows).map some := (Window.map_overFrom some amount [] rows).symm
  rw [hmap, sumOf_map_some]
  exact List.ne_nil_of_length_pos (by
    rw [Window.length_overRows]
    exact List.length_pos_of_ne_nil hne)

/-- **An allocation over the lines of an order adds up to what is allocated.** -/
theorem exists_residualAllocation (hlines : LinesOf header lines) (hne : lines ≠ []) (digits : ℕ)
    {total : JoinedItem → Option ℤ} {amount : ℤ} (htotal : ∀ j ∈ lines, total j = some amount) :
    ∃ allocated : List JoinedItem → JoinedItem → List JoinedItem → ℤ,
      (∀ before j after, lines = before ++ j :: after →
        residualAllocation digits total before j after = some (allocated before j after)) ∧
      (Window.overRows allocated lines).sum = amount :=
  ⟨_, fun _ _ _ ↦ residualAllocation_eq hlines digits htotal, Allocation.sum_residual _ _ hne⟩

end Lines

/-! ### The columns of the fact rows -/

section Columns

variable {header : OrderColumns} {lines : List JoinedItem}

/-- How `_total_discount` splits a header discount over lines with discounts of their own: they keep
them and the rest is allocated, unless they have more than the header, which is then allocated. -/
structure DiscountSplit where
  /-- The digits of the quotients. -/
  digits : ℕ
  /-- What is allocated. -/
  amount : ℤ
  /-- What an item keeps of its own discount. -/
  kept : OrderItem → ℤ

/-- The split of a header discount over lines with the given discounts in total. -/
def discountSplit (discount lineTotal : ℤ) : DiscountSplit :=
  if lineTotal ≤ discount then
    ⟨differenceDigits, discount - lineTotal, fun item ↦ item.payload.discount⟩
  else ⟨headerDigits, discount, fun _ ↦ 0⟩

/-- What is kept and what is allocated is the header discount. -/
theorem sum_kept_add_amount {discount lineTotal : ℤ} {items : List OrderItem}
    (hlines : (items.map fun item ↦ item.payload.discount).sum = lineTotal) :
    (items.map (discountSplit discount lineTotal).kept).sum +
      (discountSplit discount lineTotal).amount = discount := by
  rcases le_or_gt lineTotal discount with hle | hgt
  · rw [discountSplit, if_pos hle]
    show (items.map fun item ↦ item.payload.discount).sum + (discount - lineTotal) = discount
    omega
  · rw [discountSplit, if_neg (not_le.2 hgt)]
    show (items.map fun _ ↦ (0 : ℤ)).sum + discount = discount
    simp

/-- `_order_discount_allocated` of a line: nothing if the lines have more than the header. -/
theorem orderDiscountAllocated_eq (hlines : LinesOf header lines) {discount lineTotal : ℤ}
    (hdiscount : header.discountAmount = some discount)
    (hlineTotal : (lines.map fun j ↦ j.item.payload.discount).sum = lineTotal)
    {before after : List JoinedItem} {j : JoinedItem} (hsplit : lines = before ++ j :: after) :
    (lineAmounts before j after).orderDiscountAllocated = some (Allocation.residual
      (fun j ↦ share differenceDigits (max (discount - lineTotal) 0)
        (lines.map fun j ↦ j.item.payload.gross).sum j.item)
      (max (discount - lineTotal) 0) before j after) := by
  have hne : lines ≠ [] := by simp [hsplit]
  have hsum : sumOf (lines.map fun line ↦ line.item.payload.discountAmount) = some lineTotal :=
    hlineTotal ▸ sumOf_map_eq hne fun j hj ↦ discountAmount_eq_some (hlines j hj).2
  -- `F.greatest` with zero: what the header has beyond its lines
  have htotal : ∀ j ∈ lines, greatestOf (minus j.orderDiscount (some lineTotal)) (some 0) =
      some (max (discount - lineTotal) 0) := by
    intro j hj
    have horder : j.orderDiscount = some discount :=
      (bind_order_eq (hlines j hj).1 fun o ↦ o.discountAmount).trans hdiscount
    rw [horder, minus_some, greatestOf]
  simp only [lineAmounts, ← hsplit]
  rw [hsum]
  exact residualAllocation_eq hlines differenceDigits htotal hsplit

/-- **`_total_discount` of a line**: what it keeps, and what it is allocated. -/
theorem totalDiscount_eq (hlines : LinesOf header lines) {discount lineTotal : ℤ}
    (hdiscount : header.discountAmount = some discount)
    (hlineTotal : (lines.map fun j ↦ j.item.payload.discount).sum = lineTotal)
    {before after : List JoinedItem} {j : JoinedItem} (hsplit : lines = before ++ j :: after) :
    (lineAmounts before j after).totalDiscount =
      some ((discountSplit discount lineTotal).kept j.item + Allocation.residual
        (fun j ↦ share (discountSplit discount lineTotal).digits
          (discountSplit discount lineTotal).amount
          (lines.map fun j ↦ j.item.payload.gross).sum j.item)
        (discountSplit discount lineTotal).amount before j after) := by
  have hne : lines ≠ [] := by simp [hsplit]
  have hj : j ∈ lines := by simp [hsplit]
  have hsum : sumOf (lines.map fun line ↦ line.item.payload.discountAmount) = some lineTotal :=
    hlineTotal ▸ sumOf_map_eq hne fun j hj ↦ discountAmount_eq_some (hlines j hj).2
  have horder : ∀ j ∈ lines, j.orderDiscount = some discount := fun j hj ↦
    (bind_order_eq (hlines j hj).1 fun o ↦ o.discountAmount).trans hdiscount
  -- `F.when` compares the lines' discounts with the header's, on every line alike
  have hbranch : (lineAmounts before j after).totalDiscount =
      if lineTotal ≤ discount then
        plus j.item.payload.discountAmount (lineAmounts before j after).orderDiscountAllocated
      else residualAllocation headerDigits JoinedItem.orderDiscount before j after := by
    simp only [lineAmounts, ← hsplit]
    rw [hsum, horder j hj]
    simp
  rw [hbranch, discountSplit]
  split
  case isTrue hle =>
    rw [orderDiscountAllocated_eq hlines hdiscount hlineTotal hsplit,
      discountAmount_eq_some (hlines j hj).2, plus_some, max_eq_left (by omega)]
  case isFalse hgt =>
    rw [residualAllocation_eq hlines headerDigits horder hsplit, zero_add]

/-- The amounts of a line are recorded; the discounts add up to the header's. -/
theorem exists_totalDiscount (hlines : LinesOf header lines) (hne : lines ≠ []) {discount : ℤ}
    (hdiscount : header.discountAmount = some discount) :
    ∃ amount : List JoinedItem → JoinedItem → List JoinedItem → ℤ,
      (∀ before j after, lines = before ++ j :: after →
        (lineAmounts before j after).totalDiscount = some (amount before j after)) ∧
      (Window.overRows amount lines).sum = discount := by
  refine ⟨_, fun _ _ _ ↦ totalDiscount_eq hlines hdiscount rfl, ?_⟩
  have hkept : ∀ kept : OrderItem → ℤ,
      Window.overRows (fun _ (j : JoinedItem) _ ↦ kept j.item) lines =
        (lines.map fun j ↦ j.item).map kept := by
    intro kept
    rw [List.map_map]
    exact Window.overFrom_of_map _ _ _
  rw [Allocation.sum_overRows_add, Allocation.sum_residual _ _ hne, hkept]
  exact sum_kept_add_amount (by rw [List.map_map]; rfl)

/-- **The fact rows of the lines of an order add up**, if the amounts to allocate are recorded. -/
theorem factSums_overRows (fns : SparkFunctions) {items : List OrderItem} (hne : items ≠ [])
    (hshippingSome : header.shippingAmount.isSome = true)
    (hdiscountSome : header.discountAmount.isSome = true) (hlines : LinesOf header lines)
    (hperm : (lines.map fun j ↦ j.item).Perm items) :
    FactSums header items (Window.overRows (factRow fns) lines) := by
  have hlinesNe : lines ≠ [] := by
    rintro rfl
    exact hne (List.nil_perm.1 hperm)
  obtain ⟨discount, hdiscount⟩ := Option.isSome_iff_exists.1 hdiscountSome
  obtain ⟨shipping, hshipping⟩ := Option.isSome_iff_exists.1 hshippingSome
  have hcolumn : ∀ column : FactRow → Option ℤ,
      (Window.overRows (factRow fns) lines).map column =
        Window.overRows (fun before j after ↦ column (factRow fns before j after)) lines :=
    fun column ↦ Window.map_overFrom column _ [] lines
  -- an amount of the items alone is summed in any order of the lines
  have hsums : ∀ amount : OrderItem → ℤ,
      (Window.overRows (fun _ j _ ↦ amount j.item) lines).sum = (items.map amount).sum := by
    intro amount
    have hmap : Window.overRows (fun _ (j : JoinedItem) _ ↦ amount j.item) lines =
        (lines.map fun j ↦ j.item).map amount := by
      rw [List.map_map]
      exact Window.overFrom_of_map _ _ _
    rw [hmap, (hperm.map amount).sum_eq]
  have hmem : ∀ {before j after}, lines = before ++ j :: after → j ∈ lines := by
    intro before j after hsplit
    simp [hsplit]
  have hgross : ∀ before j after, lines = before ++ j :: after →
      (factRow fns before j after).grossSalesAmount = some j.item.payload.gross :=
    fun before j after hsplit ↦ gross_eq_some (hlines j (hmem hsplit)).2
  have htax : ∀ before j after, lines = before ++ j :: after →
      (factRow fns before j after).taxAmount = some j.item.payload.tax :=
    fun before j after hsplit ↦ taxAmount_eq_some (hlines j (hmem hsplit)).2
  have horderShipping : ∀ j ∈ lines, j.orderShipping = some shipping := fun j hj ↦
    (bind_order_eq (hlines j hj).1 fun o ↦ o.shippingAmount).trans hshipping
  -- shipping: the last line takes what the rounded shares leave
  obtain ⟨shippingShare, hshippingShare, hshippingSum⟩ :=
    exists_residualAllocation hlines hlinesNe headerDigits horderShipping
  have hship : ∀ before j after, lines = before ++ j :: after →
      (factRow fns before j after).shippingAmountAllocated = some (shippingShare before j after) :=
    hshippingShare
  -- discounts: the lines keep theirs and share the rest, or share the header's if they exceed it
  obtain ⟨discountShare, hshare, hdiscountSum⟩ := exists_totalDiscount hlines hlinesNe hdiscount
  have htotalDiscount : ∀ before j after, lines = before ++ j :: after →
      (factRow fns before j after).totalDiscountAmount = some (discountShare before j after) :=
    hshare
  -- net is computed from the other four, line by line
  have hnet : ∀ before j after, lines = before ++ j :: after →
      (factRow fns before j after).netSalesAmount =
        some ((j.item.payload.gross + j.item.payload.tax + shippingShare before j after) +
          -discountShare before j after) := by
    intro before j after hsplit
    show minus (plus (plus j.gross j.item.payload.taxAmount)
      (factRow fns before j after).shippingAmountAllocated)
      (factRow fns before j after).totalDiscountAmount = _
    rw [hship before j after hsplit, htotalDiscount before j after hsplit,
      gross_eq_some (hlines j (hmem hsplit)).2, taxAmount_eq_some (hlines j (hmem hsplit)).2]
    rfl
  constructor
  case gross =>
    rw [hcolumn, sumOf_overRows hlinesNe hgross, hsums fun item ↦ item.payload.gross]
  case totalDiscount =>
    rw [hcolumn, sumOf_overRows hlinesNe htotalDiscount, hdiscountSum, hdiscount]
  case tax =>
    rw [hcolumn, sumOf_overRows hlinesNe htax, hsums fun item ↦ item.payload.tax]
  case shipping =>
    rw [hcolumn, sumOf_overRows hlinesNe hship, hshippingSum, hshipping]
  case net =>
    rw [hcolumn, sumOf_overRows hlinesNe hnet, hshipping, hdiscount]
    simp only [Allocation.sum_overRows_add, Allocation.sum_overRows_neg, hshippingSum, hdiscountSum,
      hsums fun item ↦ item.payload.gross, hsums fun item ↦ item.payload.tax, plus_some, minus_some]
    rfl

end Columns

/-! ### The fact rows of an order -/

/-- The fact rows of an order are its lines under one window, from the last item to the first. -/
theorem exists_lines (fns : SparkFunctions) {tables : FactSources} {dimensions : FactDimensions}
    (htables : tables.UniqueKeys) (hdims : dimensions.Disjoint) {order : Order}
    (horder : order ∈ tables.orders) {items : List OrderItem}
    (hitems : (tables.orderItems.filter fun item ↦ item.payload.orderId = order.key) = items)
    (hamounts : ∀ item ∈ items, item.payload.HasAmounts) :
    ∃ lines : List JoinedItem,
      ((buildFactSales fns tables dimensions).filter fun fact ↦ fact.sourceOrderId = order.key) =
        Window.overRows (factRow fns) lines ∧
      LinesOf order.payload lines ∧
      lines.map (fun j ↦ j.item) = items.insertionSort fun a b ↦ b.key ≤ a.key := by
  let joined := (tables.orderItems.map (joinItem fns tables dimensions)).filter fun j ↦
    j.orderId = order.key
  have hjoined : joined.map (fun j ↦ j.item) = items := by
    show ((tables.orderItems.map (joinItem fns tables dimensions)).filter fun j ↦
      j.orderId = order.key).map (fun j ↦ j.item) = items
    rw [← hitems, List.filter_map, List.map_map]
    exact List.map_id _
  have hmap : (joined.insertionSort fun a b ↦ b.item.key ≤ a.item.key).map (fun j ↦ j.item) =
      items.insertionSort fun a b ↦ b.key ≤ a.key := by
    rw [← hjoined]
    exact List.map_insertionSort _ _ _ _ fun _ _ _ _ ↦ Iff.rfl
  refine ⟨joined.insertionSort fun a b ↦ b.item.key ≤ a.item.key, ?_, fun j hj ↦ ?_, hmap⟩
  · rw [buildFactSales, joinedItems_eq_map fns htables hdims,
      Window.filter_overPartition JoinedItem.orderId _ (f := factRow fns)
        (g := fun fact ↦ fact.sourceOrderId) fun _ _ _ ↦ rfl]
  · have hitem : j.item ∈ items :=
      (List.mem_insertionSort _).1 (hmap ▸ List.mem_map_of_mem hj)
    refine ⟨?_, hamounts _ hitem⟩
    rw [List.mem_insertionSort, List.mem_filter, List.mem_map] at hj
    obtain ⟨⟨item, -, rfl⟩, hid⟩ := hj
    have hid : item.payload.orderId = order.key := of_decide_eq_true hid
    rw [joinItem_order, FactSources.orderOf, hid]
    have hfind : (tables.orders.find? fun o ↦ order.key = o.key) = some order := by
      rw [← List.head?_filter, List.filter_congr fun o _ ↦ decide_eq_decide.2 eq_comm,
        Relational.filter_key_eq_singleton htables.orders horder]
      rfl
    rw [hfind]
    rfl

/-- The sums over the fact rows of an order with items. -/
theorem factSums_buildFactSales (fns : SparkFunctions) {tables : FactSources}
    {dimensions : FactDimensions} (htables : tables.UniqueKeys) (hdims : dimensions.Disjoint)
    {order : Order} (horder : order ∈ tables.orders) {items : List OrderItem}
    (hitems : (tables.orderItems.filter fun item ↦ item.payload.orderId = order.key) = items)
    (hne : items ≠ []) (hamounts : ∀ item ∈ items, item.payload.HasAmounts)
    (hshipping : order.payload.shippingAmount.isSome = true)
    (hdiscount : order.payload.discountAmount.isSome = true) :
    FactSums order.payload items ((buildFactSales fns tables dimensions).filter
      fun fact ↦ fact.sourceOrderId = order.key) := by
  obtain ⟨lines, hfacts, hlines, hmap⟩ := exists_lines fns htables hdims horder hitems hamounts
  rw [hfacts]
  exact factSums_overRows fns hne hshipping hdiscount hlines (hmap ▸ List.perm_insertionSort _ _)

/-- **Money is conserved.** For an order with items under the money convention, the sums over its
fact rows are its header amounts. -/
theorem reconciles_buildFactSales (fns : SparkFunctions) {tables : FactSources}
    {dimensions : FactDimensions} (htables : tables.UniqueKeys) (hdims : dimensions.Disjoint)
    {order : Order} (horder : order ∈ tables.orders)
    (hne : (tables.orderItems.filter fun item ↦ item.payload.orderId = order.key) ≠ [])
    (hmoney : MoneyConvention order.payload
      (tables.orderItems.filter fun item ↦ item.payload.orderId = order.key)) :
    Reconciles order.payload ((buildFactSales fns tables dimensions).filter
      fun fact ↦ fact.sourceOrderId = order.key) :=
  (factSums_buildFactSales fns htables hdims horder rfl hne hmoney.lines_hasAmounts
    hmoney.shipping hmoney.discount).reconciles hmoney

/-- Three lines that share 100 cents of discount and 50 of shipping: shares are rounded, and the
last line takes the residual. -/
theorem reconciles_smallOrder :
    Reconciles (smallOrder 1 1000 50 30 100).payload
      ((buildFactSales .plain smallSources smallDimensions).filter
        fun fact ↦ fact.sourceOrderId = 1) := by
  refine reconciles_buildFactSales .plain uniqueKeys_smallSources disjoint_smallDimensions
    (List.mem_singleton.2 rfl) (by decide)
      ⟨?_, by decide, by decide, by decide, by decide, by decide⟩
  intro item hitem
  have hitems : item ∈ smallSources.orderItems := List.mem_of_mem_filter hitem
  simp only [smallSources, List.mem_cons, List.not_mem_nil, or_false] at hitems
  rcases hitems with rfl | rfl | rfl <;> constructor <;> rfl

end LakehousePipeline
