import LakehousePipeline.Gold.FactMoney
import LakehousePipeline.Gold.Quality

/-!
# Signs of the allocated amounts

The last line of an order takes what the rounded shares of the other lines leave, and the shares of
shipping and of the discount are rounded independently. So an order the source accepts may get a
negative amount: three cents of shipping over five equal lines are one cent for each of the four
others, and minus one for the last. A line that keeps all of its own discount goes below zero as
soon as it is allocated more of the header discount than of the shipping, rounding or not. The gate
then rejects the run.

`AmountsFit` says, in the amounts of the header and the items, when this does not happen
(`amountsNonneg_iff`). Orders with one line always fit (`amountsFit_of_single`), and shipping fits
as soon as the last line weighs enough to cover half a cent for each of the others
(`shipping_le_of_weight`).

## Where the signs are decided

The gate looks at the amounts a fact row records and at those it computes. The recorded ones are
nonnegative by the `CHECK`s of the source (`OrderColumns.Checks`, `OrderItemColumns.Checks`). The
computed ones are sums of recorded amounts and of what the line is allocated, and an allocation is a
rounded share, or the rest of the amount for the line that comes last in the window. Shares of a
nonnegative amount are nonnegative (`share_nonneg`), so there are two kinds of lines:

* for the last one the conditions are that the shares of the others do not exceed the amount, once
  for the shipping and once for the discount (`LinesFit.shipping`, `LinesFit.discount`);
* for all of them, that the discount is not more than what the line has to pay.

The order of the window is that of the keys, descending, so the last line is known from the items
alone and the condition does not mention the window.
-/

namespace LakehousePipeline

/-! ### What the source admits -/

/-- The `CHECK` constraints of `order_items` on amounts. -/
structure OrderItemColumns.Checks (c : OrderItemColumns) : Prop where
  quantity : 0 < c.quantity.getD 0
  unitPrice : 0 ≤ c.unitPrice.getD 0
  tax : 0 ≤ c.tax
  discount : 0 ≤ c.discount
  discount_le : c.discount ≤ c.gross + c.tax

/-- The `CHECK` constraints of `orders` on amounts. -/
structure OrderColumns.Checks (c : OrderColumns) : Prop where
  subtotal : 0 ≤ c.subtotalAmount.getD 0
  shipping : 0 ≤ c.shippingAmount.getD 0
  tax : 0 ≤ c.taxAmount.getD 0
  discount : 0 ≤ c.discountAmount.getD 0
  discount_le : c.discountAmount.getD 0 ≤
    c.subtotalAmount.getD 0 + c.shippingAmount.getD 0 + c.taxAmount.getD 0

/-- The gross amount of a line is nonnegative. -/
theorem OrderItemColumns.Checks.gross_nonneg {c : OrderItemColumns} (h : c.Checks) : 0 ≤ c.gross :=
  mul_nonneg h.quantity.le h.unitPrice

/-- The computed amounts of a fact row are recorded and nonnegative. -/
def FactRow.AmountsNonneg (f : FactRow) : Prop :=
  ∀ a ∈ [f.orderDiscountAmountAllocated, f.totalDiscountAmount, f.shippingAmountAllocated,
    f.netSalesAmount], a.any (fun a ↦ 0 ≤ a) = true

/-! ### What the lines leave to the last -/

section Fit

variable (header : OrderColumns) (items : List OrderItem)

/-- The share of an item in the shipping. -/
def shippingShare (item : OrderItem) : ℤ :=
  share headerDigits (header.shippingAmount.getD 0) (items.map fun item ↦ item.payload.gross).sum
    item

/-- The split of the header discount. -/
def headerSplit : DiscountSplit :=
  discountSplit (header.discountAmount.getD 0) (items.map fun item ↦ item.payload.discount).sum

/-- The share of an item in the discount that is allocated. -/
def discountShare (item : OrderItem) : ℤ :=
  share (headerSplit header items).digits (headerSplit header items).amount
    (items.map fun item ↦ item.payload.gross).sum item

/-- The shares of the other lines leave the last one something, and no line is allocated more
discount than it has to pay. -/
structure LinesFit (last : OrderItem) (others : List OrderItem) : Prop where
  shipping : (others.map (shippingShare header items)).sum ≤ header.shippingAmount.getD 0
  discount : (others.map (discountShare header items)).sum ≤ (headerSplit header items).amount
  net_last : (headerSplit header items).kept last +
      ((headerSplit header items).amount - (others.map (discountShare header items)).sum) ≤
    last.payload.gross + last.payload.tax +
      (header.shippingAmount.getD 0 - (others.map (shippingShare header items)).sum)
  net_others : ∀ item ∈ others,
    (headerSplit header items).kept item + discountShare header items item ≤
      item.payload.gross + item.payload.tax + shippingShare header items item

/-- **The amounts of an order fit its lines**, the last of which is the one with the greatest
key. -/
def AmountsFit : Prop :=
  match items.insertionSort fun a b ↦ b.key ≤ a.key with
  | [] => True
  | last :: others => LinesFit header items last others

variable {header items}

/-- Shares of a nonnegative amount are nonnegative. -/
theorem share_nonneg {digits : ℕ} {total grossTotal : ℤ} (htotal : 0 ≤ total) {item : OrderItem}
    (hitem : item.payload.Checks) : 0 ≤ share digits total grossTotal item := by
  rw [share]
  split
  case isTrue hpos =>
    exact Allocation.roundQuotient_nonneg digits (mul_nonneg htotal hitem.gross_nonneg) hpos
  case isFalse => exact le_rfl

/-- Nothing is a share of nothing. -/
theorem share_zero (digits : ℕ) (grossTotal : ℤ) (item : OrderItem) :
    share digits 0 grossTotal item = 0 := by
  rw [share, zero_mul]
  split
  case isTrue hpos => exact Allocation.roundQuotient_zero digits hpos
  case isFalse => rfl

/-- The discount that is allocated is not negative. -/
theorem headerSplit_amount_nonneg (hheader : header.Checks) :
    0 ≤ (headerSplit header items).amount := by
  rw [headerSplit, discountSplit]
  split
  case isTrue hle => exact Int.sub_nonneg_of_le hle
  case isFalse => exact hheader.discount

/-- Nor is what a line keeps of its own. -/
theorem headerSplit_kept_nonneg {item : OrderItem} (hitem : item.payload.Checks) :
    0 ≤ (headerSplit header items).kept item := by
  rw [headerSplit, discountSplit]
  split
  case isTrue => exact hitem.discount
  case isFalse => exact le_rfl

end Fit

/-! ### The amounts of one line -/

section Line

variable {header : OrderColumns} {items : List OrderItem} {lines : List JoinedItem}

/-- The lines of a window are the items of an order under the money convention. -/
structure WindowOf (header : OrderColumns) (items : List OrderItem) (lines : List JoinedItem) :
    Prop where
  money : MoneyConvention header items
  header_checks : header.Checks
  items_checks : ∀ item ∈ items, item.payload.Checks
  lines_of : LinesOf header lines
  perm : (lines.map fun j ↦ j.item).Perm items

namespace WindowOf

variable (h : WindowOf header items lines)
include h

/-- A line of the window is an item of the order. -/
theorem checks {j : JoinedItem} (hj : j ∈ lines) : j.item.payload.Checks :=
  h.items_checks _ (h.perm.mem_iff.1 (List.mem_map_of_mem hj))

/-- Sums over the window are sums over the items. -/
theorem sum_lines (amount : OrderItem → ℤ) :
    (lines.map fun j ↦ amount j.item).sum = (items.map amount).sum := by
  rw [← (h.perm.map amount).sum_eq, List.map_map]
  rfl

/-- The header has a discount. -/
theorem discountAmount_eq : header.discountAmount = some (header.discountAmount.getD 0) := by
  obtain ⟨discount, hdiscount⟩ := Option.isSome_iff_exists.1 h.money.discount
  rw [hdiscount, Option.getD_some]

/-- The header has a shipping amount. -/
theorem shippingAmount_eq : header.shippingAmount = some (header.shippingAmount.getD 0) := by
  obtain ⟨shipping, hshipping⟩ := Option.isSome_iff_exists.1 h.money.shipping
  rw [hshipping, Option.getD_some]

variable {before after : List JoinedItem} {j : JoinedItem}

/-- The shipping of a line is its share, or what the others leave. -/
theorem shipping_eq (hsplit : lines = before ++ j :: after) :
    (lineAmounts before j after).shippingAllocated =
      some (Allocation.residual (fun j ↦ shippingShare header items j.item)
        (header.shippingAmount.getD 0) before j after) := by
  have horder : ∀ j ∈ lines, j.orderShipping = some (header.shippingAmount.getD 0) := fun j hj ↦
    (bind_order_eq (h.lines_of j hj).1 fun o ↦ o.shippingAmount).trans h.shippingAmount_eq
  have hline := residualAllocation_eq h.lines_of headerDigits horder hsplit
  rw [h.sum_lines fun item ↦ item.payload.gross] at hline
  exact hline

/-- The discount of a line is what it keeps of its own and what it is allocated. -/
theorem totalDiscount_eq (hsplit : lines = before ++ j :: after) :
    (lineAmounts before j after).totalDiscount =
      some ((headerSplit header items).kept j.item +
        Allocation.residual (fun j ↦ discountShare header items j.item)
          (headerSplit header items).amount before j after) := by
  have hline := LakehousePipeline.totalDiscount_eq h.lines_of h.discountAmount_eq
    (h.sum_lines fun item ↦ item.payload.discount) hsplit
  rw [h.sum_lines fun item ↦ item.payload.gross] at hline
  exact hline

/-- The order discount of a line is what it is allocated, or nothing. -/
theorem orderDiscount_eq (hsplit : lines = before ++ j :: after) :
    (lineAmounts before j after).orderDiscountAllocated =
      some (if (items.map fun item ↦ item.payload.discount).sum ≤ header.discountAmount.getD 0 then
        Allocation.residual (fun j ↦ discountShare header items j.item)
          (headerSplit header items).amount before j after
      else 0) := by
  have hline := orderDiscountAllocated_eq h.lines_of h.discountAmount_eq
    (h.sum_lines fun item ↦ item.payload.discount) hsplit
  rw [h.sum_lines fun item ↦ item.payload.gross] at hline
  rw [hline]
  split
  case isTrue hle =>
    rw [max_eq_left (Int.sub_nonneg_of_le hle)]
    simp only [discountShare, headerSplit, discountSplit, if_pos hle]
  case isFalse hgt =>
    rw [max_eq_right (by omega)]
    simp only [share_zero, Allocation.residual, List.map_const', List.sum_replicate, nsmul_zero,
      sub_zero, ite_self]

/-- The net amount of a line in terms of its item and its allocations. -/
theorem netSales_eq (hsplit : lines = before ++ j :: after) :
    (lineAmounts before j after).netSales =
      some (j.item.payload.gross + j.item.payload.tax +
        Allocation.residual (fun j ↦ shippingShare header items j.item)
          (header.shippingAmount.getD 0) before j after -
        ((headerSplit header items).kept j.item +
          Allocation.residual (fun j ↦ discountShare header items j.item)
            (headerSplit header items).amount before j after)) := by
  have hj : j ∈ lines := by simp [hsplit]
  show minus (plus (plus j.gross j.item.payload.taxAmount)
    (lineAmounts before j after).shippingAllocated) (lineAmounts before j after).totalDiscount = _
  rw [h.shipping_eq hsplit, h.totalDiscount_eq hsplit, gross_eq_some (h.lines_of j hj).2,
    taxAmount_eq_some (h.lines_of j hj).2]
  rfl

/-- The signs of a line are the signs of what it is allocated. -/
theorem amountsNonneg_iff_residual (fns : SparkFunctions) (hsplit : lines = before ++ j :: after) :
    (factRow fns before j after).AmountsNonneg ↔
      0 ≤ Allocation.residual (fun j ↦ shippingShare header items j.item)
        (header.shippingAmount.getD 0) before j after ∧
      0 ≤ Allocation.residual (fun j ↦ discountShare header items j.item)
        (headerSplit header items).amount before j after ∧
      (headerSplit header items).kept j.item +
        Allocation.residual (fun j ↦ discountShare header items j.item)
          (headerSplit header items).amount before j after ≤
        j.item.payload.gross + j.item.payload.tax +
          Allocation.residual (fun j ↦ shippingShare header items j.item)
            (header.shippingAmount.getD 0) before j after := by
  have hj : j ∈ lines := by simp [hsplit]
  have hkept : 0 ≤ (headerSplit header items).kept j.item :=
    headerSplit_kept_nonneg (h.checks hj)
  show (∀ a ∈ [(lineAmounts before j after).orderDiscountAllocated,
    (lineAmounts before j after).totalDiscount, (lineAmounts before j after).shippingAllocated,
    (lineAmounts before j after).netSales], a.any (fun a ↦ 0 ≤ a) = true) ↔ _
  rw [h.orderDiscount_eq hsplit, h.totalDiscount_eq hsplit, h.shipping_eq hsplit,
    h.netSales_eq hsplit]
  simp only [List.forall_mem_cons, Option.any_some, decide_eq_true_eq, List.not_mem_nil,
    false_implies, implies_true, and_true]
  -- the order discount is what is allocated or zero; where it is zero no discount is kept
  split
  case isTrue => omega
  case isFalse hgt =>
    have hnone : (headerSplit header items).kept j.item = 0 := by
      rw [headerSplit, discountSplit, if_neg hgt]
    omega

/-- The gate looks at the signs of the computed amounts; the recorded ones are nonnegative. -/
theorem hasInvalidAmount_eq_false_iff (fns : SparkFunctions)
    (hsplit : lines = before ++ j :: after) :
    (factRow fns before j after).hasInvalidAmount = false ↔
      (factRow fns before j after).AmountsNonneg := by
  have hj : j ∈ lines := by simp [hsplit]
  have hchecks := h.checks hj
  have hamounts := (h.lines_of j hj).2
  obtain ⟨q, hq⟩ := Option.isSome_iff_exists.1 hamounts.quantity
  obtain ⟨p, hp⟩ := Option.isSome_iff_exists.1 hamounts.unitPrice
  have hquantity : 0 < q := by simpa [hq] using hchecks.quantity
  have hprice : 0 ≤ p := by simpa [hp] using hchecks.unitPrice
  have hrecorded : (factRow fns before j after).quantity = some q ∧
      (factRow fns before j after).unitPriceAmount = some p ∧
      (factRow fns before j after).grossSalesAmount = some j.item.payload.gross ∧
      (factRow fns before j after).lineDiscountAmount = some j.item.payload.discount ∧
      (factRow fns before j after).taxAmount = some j.item.payload.tax :=
    ⟨hq, hp, gross_eq_some hamounts, discountAmount_eq_some hamounts, taxAmount_eq_some hamounts⟩
  obtain ⟨hq', hp', hgross, hdiscount, htax⟩ := hrecorded
  simp only [FactRow.hasInvalidAmount, FactRow.monetaryColumns, FactRow.AmountsNonneg, hq', hp',
    hgross, hdiscount, htax]
  simp [hquantity, hprice, hchecks.gross_nonneg, hchecks.discount, hchecks.tax]

/-- **The lines of an order have nonnegative amounts exactly if the amounts fit.** -/
theorem forall_amountsNonneg_iff (fns : SparkFunctions)
    (hsort : lines.map (fun j ↦ j.item) = items.insertionSort fun a b ↦ b.key ≤ a.key) :
    (∀ fact ∈ Window.overRows (factRow fns) lines, fact.AmountsNonneg) ↔
      AmountsFit header items := by
  have hsum : ∀ (amount : OrderItem → ℤ) (rest : List JoinedItem),
      (rest.map fun j ↦ amount j.item).sum = ((rest.map fun j ↦ j.item).map amount).sum := by
    intro amount rest
    rw [List.map_map]
    rfl
  rw [AmountsFit, ← hsort]
  rcases lines with - | ⟨j, rest⟩
  · simp
  -- the first line in the window's order takes the residual
  · have hfirst := h.amountsNonneg_iff_residual fns (List.nil_append (j :: rest)).symm
    -- the lines after it get their rounded share, which is never negative
    have hrest : ∀ before x after, rest = before ++ x :: after →
        ((factRow fns (j :: before) x after).AmountsNonneg ↔
          (headerSplit header items).kept x.item + discountShare header items x.item ≤
            x.item.payload.gross + x.item.payload.tax + shippingShare header items x.item) := by
      intro before x after hsplit
      have hline : j :: rest = (j :: before) ++ x :: after := by rw [hsplit, List.cons_append]
      have hx : x.item.payload.Checks := h.checks (by simp [hline])
      rw [h.amountsNonneg_iff_residual fns hline, Allocation.residual_cons,
        Allocation.residual_cons]
      have hship : 0 ≤ shippingShare header items x.item :=
        share_nonneg h.header_checks.shipping hx
      have hdisc : 0 ≤ discountShare header items x.item :=
        share_nonneg (headerSplit_amount_nonneg h.header_checks) hx
      exact ⟨fun hx ↦ hx.2.2, fun hx ↦ ⟨hship, hdisc, hx⟩⟩
    rw [Allocation.residual_nil, Allocation.residual_nil, hsum (shippingShare header items),
      hsum (discountShare header items)] at hfirst
    rw [Window.overRows, Window.overFrom_cons, List.forall_mem_cons, List.map_cons, hfirst]
    constructor
    · rintro ⟨⟨hship, hdisc, hnet⟩, hothers⟩
      refine ⟨Int.sub_nonneg.1 hship, Int.sub_nonneg.1 hdisc, hnet, fun item hitem ↦ ?_⟩
      obtain ⟨x, hx, rfl⟩ := List.mem_map.1 hitem
      obtain ⟨before, after, hsplit⟩ := List.append_of_mem hx
      exact (hrest before x after hsplit).1
        (hothers _ (Window.mem_overFrom.2 ⟨before, x, after, hsplit, rfl⟩))
    · rintro ⟨hship, hdisc, hnet, hothers⟩
      refine ⟨⟨Int.sub_nonneg.2 hship, Int.sub_nonneg.2 hdisc, hnet⟩, fun fact hfact ↦ ?_⟩
      obtain ⟨before, x, after, hsplit, rfl⟩ := Window.mem_overFrom.1 hfact
      refine (hrest before x after hsplit).2 (hothers _ (List.mem_map_of_mem ?_))
      rw [hsplit]
      exact List.mem_append_right _ List.mem_cons_self

end WindowOf

end Line

/-! ### Orders that fit -/

section Orders

variable {header : OrderColumns} {items : List OrderItem}

/-- **An order with one line fits.** -/
theorem amountsFit_of_single {item : OrderItem} (hmoney : MoneyConvention header [item])
    (hheader : header.Checks) : AmountsFit header [item] := by
  have hsubtotal : header.subtotalAmount.getD 0 = item.payload.gross := by
    rw [hmoney.subtotal]
    simp
  have htax : header.taxAmount.getD 0 = item.payload.tax := by
    rw [hmoney.tax]
    simp
  have hdiscount : (headerSplit header [item]).kept item + (headerSplit header [item]).amount =
      header.discountAmount.getD 0 := by
    have hsum : ([item].map (headerSplit header [item]).kept).sum +
        (headerSplit header [item]).amount = header.discountAmount.getD 0 := sum_kept_add_amount rfl
    simpa using hsum
  have hle := hheader.discount_le
  show LinesFit header [item] item []
  refine ⟨hheader.shipping, headerSplit_amount_nonneg hheader, ?_, fun _ h ↦ absurd h (by simp)⟩
  simp only [List.map_nil, List.sum_nil]
  omega

/-- **Shipping fits** if the exact share of the last line covers the rounding errors of the others,
half a cent each and half of the last digit of the quotient. -/
theorem shipping_le_of_weight {last : OrderItem} {others : List OrderItem}
    (hsort : items.Perm (last :: others)) (hheader : header.Checks)
    (hitems : ∀ item ∈ items, item.payload.Checks)
    (hweight : (10 ^ headerDigits + 1) * (items.map fun item ↦ item.payload.gross).sum *
        others.length ≤
      2 * (header.shippingAmount.getD 0 * last.payload.gross * 10 ^ headerDigits)) :
    (others.map (shippingShare header items)).sum ≤ header.shippingAmount.getD 0 := by
  have hgross : (items.map fun item ↦ item.payload.gross).sum =
      last.payload.gross + (others.map fun item ↦ item.payload.gross).sum := by
    rw [(hsort.map _).sum_eq, List.map_cons, List.sum_cons]
  by_cases hpos : 0 < (items.map fun item ↦ item.payload.gross).sum
  · have hshares : others.map (shippingShare header items) = others.map fun item ↦
        Allocation.roundQuotient headerDigits
          (header.shippingAmount.getD 0 * item.payload.gross)
          (items.map fun item ↦ item.payload.gross).sum :=
      List.map_congr_left fun item _ ↦ if_pos hpos
    rw [hshares]
    rw [hgross] at hweight hpos ⊢
    exact Allocation.sum_shares_le_of_weight headerDigits hheader.shipping
      (fun item hitem ↦
        (hitems item (hsort.mem_iff.2 (List.mem_cons_of_mem last hitem))).gross_nonneg)
      hpos hweight
  · -- nothing is shared when the lines weigh nothing
    have hzero : others.map (shippingShare header items) = others.map fun _ ↦ 0 :=
      List.map_congr_left fun item _ ↦ if_neg hpos
    rw [hzero]
    simpa using hheader.shipping

end Orders

/-! ### The fact rows of an order -/

/-- **An order the source accepts has nonnegative amounts in `fact_sales`, and passes the amount
gate, exactly if its amounts fit its lines.** -/
theorem amountsNonneg_iff (fns : SparkFunctions) {tables : FactSources}
    {dimensions : FactDimensions} (htables : tables.UniqueKeys) (hdims : dimensions.Disjoint)
    {order : Order} (horder : order ∈ tables.orders) {items : List OrderItem}
    (hitems : (tables.orderItems.filter fun item ↦ item.payload.orderId = order.key) = items)
    (hmoney : MoneyConvention order.payload items) (hheader : order.payload.Checks)
    (hchecks : ∀ item ∈ items, item.payload.Checks) :
    ((∀ fact ∈ buildFactSales fns tables dimensions, fact.sourceOrderId = order.key →
        fact.AmountsNonneg) ↔ AmountsFit order.payload items) ∧
      ((∀ fact ∈ buildFactSales fns tables dimensions, fact.sourceOrderId = order.key →
        fact.hasInvalidAmount = false) ↔ AmountsFit order.payload items) := by
  obtain ⟨lines, hfacts, hlines, hsort⟩ :=
    exists_lines fns htables hdims horder hitems hmoney.lines_hasAmounts
  have hwindow : WindowOf order.payload items lines :=
    ⟨hmoney, hheader, hchecks, hlines, hsort ▸ List.perm_insertionSort _ _⟩
  have hmem : ∀ P : FactRow → Prop, (∀ fact ∈ buildFactSales fns tables dimensions,
      fact.sourceOrderId = order.key → P fact) ↔
        ∀ fact ∈ Window.overRows (factRow fns) lines, P fact := by
    intro P
    rw [← hfacts]
    simp only [List.mem_filter, decide_eq_true_eq, and_imp]
  have hgate : ∀ fact ∈ Window.overRows (factRow fns) lines,
      (fact.hasInvalidAmount = false ↔ fact.AmountsNonneg) := by
    intro fact hfact
    obtain ⟨before, j, after, hsplit, rfl⟩ := Window.mem_overRows.1 hfact
    exact hwindow.hasInvalidAmount_eq_false_iff fns hsplit
  have hfit := hwindow.forall_amountsNonneg_iff fns hsort
  refine ⟨(hmem _).trans hfit, (hmem _).trans (Iff.trans ?_ hfit)⟩
  exact forall₂_congr hgate

/-- Three lines that share 100 cents of discount and 50 of shipping, with something left for the
last. -/
theorem amountsNonneg_iff_smallOrder :
    smallOrder 1 1000 50 30 100 ∈ smallSources.orders ∧
      ∀ fact ∈ buildFactSales .plain smallSources smallDimensions, fact.sourceOrderId = 1 →
        fact.hasInvalidAmount = false := by
  refine ⟨List.mem_singleton.2 rfl, ?_⟩
  refine (amountsNonneg_iff .plain uniqueKeys_smallSources disjoint_smallDimensions
    (show smallOrder 1 1000 50 30 100 ∈ smallSources.orders from List.mem_singleton.2 rfl) rfl
    ⟨?_, by decide, by decide, by decide, by decide, by decide⟩ (by constructor <;> decide)
      ?_).2.2 ?_
  · show ∀ item ∈ smallSources.orderItems, item.payload.HasAmounts
    simp only [smallSources, List.forall_mem_cons]
    exact ⟨⟨rfl, rfl, rfl, rfl⟩, ⟨rfl, rfl, rfl, rfl⟩, ⟨rfl, rfl, rfl, rfl⟩, by simp⟩
  · show ∀ item ∈ smallSources.orderItems, item.payload.Checks
    simp only [smallSources, List.forall_mem_cons]
    exact ⟨by constructor <;> decide, by constructor <;> decide, by constructor <;> decide, by simp⟩
  · show LinesFit _ _ (smallItem 1 13 22 1 333 10 5)
      [smallItem 1 12 21 1 334 10 0, smallItem 1 11 21 1 333 10 20]
    constructor <;> decide

/-- Order 1 with three cents of shipping and five lines of one price. -/
def thinShippingSources : FactSources where
  orders := [smallOrder 1 500 3 0 0]
  orderItems := [smallItem 1 11 21 1 100 0 0, smallItem 1 12 21 1 100 0 0,
    smallItem 1 13 21 1 100 0 0, smallItem 1 14 21 1 100 0 0, smallItem 1 15 21 1 100 0 0]
  orderVouchers := []
  vouchers := []
  payments := []
  shipments := []

/-- **The last of five equal lines is charged for the rounding of the others**: one cent of shipping
less than nothing, and the gate rejects the run. -/
theorem amountGate_rejects_thinShipping :
    thinShippingSources.UniqueKeys ∧ smallDimensions.Disjoint ∧
      MoneyConvention (smallOrder 1 500 3 0 0).payload thinShippingSources.orderItems ∧
      (smallOrder 1 500 3 0 0).payload.Checks ∧
      (∀ item ∈ thinShippingSources.orderItems, item.payload.Checks) ∧
      (∃ fact ∈ buildFactSales .plain thinShippingSources smallDimensions,
        fact.sourceOrderId = 1 ∧ fact.shippingAmountAllocated = some (-1)) ∧
      assertFactMetrics (buildFactSales .plain thinShippingSources smallDimensions) =
        .error .invalidAmount := by
  refine ⟨by constructor <;> decide, disjoint_smallDimensions,
    ⟨?_, by decide, by decide, by decide, by decide, by decide⟩, by constructor <;> decide, ?_,
    by decide +kernel, by decide +kernel⟩
  · simp only [thinShippingSources, List.forall_mem_cons]
    exact ⟨⟨rfl, rfl, rfl, rfl⟩, ⟨rfl, rfl, rfl, rfl⟩, ⟨rfl, rfl, rfl, rfl⟩, ⟨rfl, rfl, rfl, rfl⟩,
      ⟨rfl, rfl, rfl, rfl⟩, by simp⟩
  · simp only [thinShippingSources, List.forall_mem_cons]
    exact ⟨by constructor <;> decide, by constructor <;> decide, by constructor <;> decide,
      by constructor <;> decide, by constructor <;> decide, by simp⟩

end LakehousePipeline
