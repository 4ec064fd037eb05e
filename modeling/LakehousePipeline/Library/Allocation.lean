import LakehousePipeline.Library.Window
import Mathlib.Algebra.BigOperators.Group.List.Basic
import Mathlib.Data.Int.Order.Basic
import Mathlib.Tactic.Linarith
import Mathlib.Tactic.Positivity
import Mathlib.Tactic.Ring

/-!
# Residual allocation

A total is split over the lines of a partition: every line gets a rounded share, and the line that
comes first in the window takes what the shares of the others leave. Whatever the shares are, the
amounts add up to the total (`sum_residual`): nothing is asked of the rounding, not even that it
rounds.
-/

namespace Allocation

variable {α : Type*}

/-- The integer nearest to `n / d`, ties to the even one. -/
def roundHalfEven (n d : ℤ) : ℤ :=
  if 2 * (n % d) < d ∨ (2 * (n % d) = d ∧ n / d % 2 = 0) then n / d else n / d + 1

/-- The integer nearest to `n / d`, ties away from zero. -/
def roundHalfUp (n d : ℤ) : ℤ :=
  if 0 ≤ n then (2 * n + d) / (2 * d) else -((2 * -n + d) / (2 * d))

/-- `n / d` rounded twice: the quotient keeps `digits` decimal digits, and is then rounded to an
integer, ties to the even one. -/
def roundQuotient (digits : ℕ) (n d : ℤ) : ℤ :=
  roundHalfEven (roundHalfUp (n * 10 ^ digits) d) (10 ^ digits)

/-! ### Rounding -/

section Rounding

variable {n d : ℤ}

theorem roundHalfEven_nonneg (hn : 0 ≤ n) (hd : 0 < d) : 0 ≤ roundHalfEven n d := by
  have hq : 0 ≤ n / d := Int.ediv_nonneg hn hd.le
  rw [roundHalfEven]
  split <;> omega

/-- The integer is at most one half above the quotient. -/
theorem two_mul_roundHalfEven_le (hd : 0 < d) : 2 * (d * roundHalfEven n d) ≤ 2 * n + d := by
  have hsplit := Int.mul_ediv_add_emod n d
  have hmod := Int.emod_nonneg n hd.ne'
  rw [roundHalfEven]
  split
  case isTrue => omega
  case isFalse hnot =>
    have hhalf : d ≤ 2 * (n % d) := not_lt.1 fun hlt ↦ hnot (Or.inl hlt)
    have hmul : d * (n / d + 1) = d * (n / d) + d := by ring
    omega

theorem roundHalfUp_nonneg (hn : 0 ≤ n) (hd : 0 < d) : 0 ≤ roundHalfUp n d := by
  rw [roundHalfUp, if_pos hn]
  exact Int.ediv_nonneg (by omega) (by omega)

/-- The integer is at most one half above the quotient. -/
theorem two_mul_roundHalfUp_le (hn : 0 ≤ n) (hd : 0 < d) :
    2 * (d * roundHalfUp n d) ≤ 2 * n + d := by
  have hsplit := Int.mul_ediv_add_emod (2 * n + d) (2 * d)
  have hmod := Int.emod_nonneg (2 * n + d) (show 2 * d ≠ 0 by omega)
  have hmul : 2 * (d * ((2 * n + d) / (2 * d))) = 2 * d * ((2 * n + d) / (2 * d)) := by ring
  rw [roundHalfUp, if_pos hn]
  omega

theorem roundQuotient_nonneg (digits : ℕ) (hn : 0 ≤ n) (hd : 0 < d) :
    0 ≤ roundQuotient digits n d :=
  roundHalfEven_nonneg (roundHalfUp_nonneg (by positivity) hd) (by positivity)

theorem roundQuotient_zero (digits : ℕ) (hd : 0 < d) : roundQuotient digits 0 d = 0 := by
  have hup : roundHalfUp (0 * 10 ^ digits) d = 0 := by
    rw [roundHalfUp, zero_mul, if_pos le_rfl]
    exact Int.ediv_eq_zero_of_lt (by omega) (by omega)
  have hpow : (0 : ℤ) < 10 ^ digits := by positivity
  rw [roundQuotient, hup, roundHalfEven, Int.zero_emod, Int.zero_ediv, mul_zero,
    if_pos (Or.inl hpow)]

/-- **The rounding error**: one half, and one half of the last digit kept. -/
theorem two_mul_roundQuotient_le (digits : ℕ) (hn : 0 ≤ n) (hd : 0 < d) :
    2 * (d * 10 ^ digits * roundQuotient digits n d) ≤
      2 * (n * 10 ^ digits) + (10 ^ digits + 1) * d := by
  have hpow : (0 : ℤ) < 10 ^ digits := by positivity
  have hup := two_mul_roundHalfUp_le (n := n * 10 ^ digits) (by positivity) hd
  have heven := mul_le_mul_of_nonneg_left
    (two_mul_roundHalfEven_le (n := roundHalfUp (n * 10 ^ digits) d) hpow) hd.le
  rw [← roundQuotient] at heven
  calc 2 * (d * 10 ^ digits * roundQuotient digits n d)
      = d * (2 * (10 ^ digits * roundQuotient digits n d)) := by ring
    _ ≤ d * (2 * roundHalfUp (n * 10 ^ digits) d + 10 ^ digits) := heven
    _ = 2 * (d * roundHalfUp (n * 10 ^ digits) d) + 10 ^ digits * d := by ring
    _ ≤ 2 * (n * 10 ^ digits) + (10 ^ digits + 1) * d := by
      rw [add_mul, one_mul]
      omega

end Rounding

/-! ### Residual allocation -/

/-- The amount of a line: the first line of the window takes the residual. -/
def residual (share : α → ℤ) (total : ℤ) (before : List α) (x : α) (after : List α) : ℤ :=
  if before = [] then total - (((before ++ x :: after).map share).sum - share x) else share x

theorem residual_nil (share : α → ℤ) (total : ℤ) (x : α) (after : List α) :
    residual share total [] x after = total - (after.map share).sum := by
  rw [residual, if_pos rfl, List.nil_append, List.map_cons, List.sum_cons]
  omega

theorem residual_cons (share : α → ℤ) (total : ℤ) (y : α) (before : List α) (x : α)
    (after : List α) : residual share total (y :: before) x after = share x :=
  if_neg (List.cons_ne_nil y before)

/-- Behind the first line the amounts are the shares. -/
theorem sum_overFrom_residual (share : α → ℤ) (total : ℤ) {before : List α} (hne : before ≠ [])
    (lines : List α) :
    (Window.overFrom (residual share total) before lines).sum = (lines.map share).sum := by
  induction lines generalizing before with
  | nil => rfl
  | cons x lines ih =>
    rw [Window.overFrom_cons, List.sum_cons, List.map_cons, List.sum_cons, ih (by simp), residual,
      if_neg hne]

/-- **The amounts add up to the total.** -/
theorem sum_residual (share : α → ℤ) (total : ℤ) {lines : List α} (hne : lines ≠ []) :
    (Window.overRows (residual share total) lines).sum = total := by
  cases lines with
  | nil => exact absurd rfl hne
  | cons x lines =>
    have hrest := sum_overFrom_residual share total (List.cons_ne_nil x []) lines
    rw [Window.overRows, Window.overFrom_cons, List.nil_append, List.sum_cons, hrest, residual,
      if_pos rfl, List.nil_append, List.map_cons, List.sum_cons]
    omega

/-- **The first line keeps the sign of the total** if its exact share covers the rounding errors of
the others. -/
theorem sum_shares_le_of_weight (digits : ℕ) {total : ℤ} {weight : α → ℤ} {first : α}
    {others : List α} (htotal : 0 ≤ total) (hweight : ∀ x ∈ others, 0 ≤ weight x)
    (hpos : 0 < weight first + (others.map weight).sum)
    (hfirst : (10 ^ digits + 1) * (weight first + (others.map weight).sum) * others.length ≤
      2 * (total * weight first * 10 ^ digits)) :
    (others.map fun x ↦ roundQuotient digits (total * weight x)
      (weight first + (others.map weight).sum)).sum ≤ total := by
  set d := weight first + (others.map weight).sum with hd
  have hbound : ∀ lines : List α, (∀ x ∈ lines, 0 ≤ weight x) →
      2 * (d * 10 ^ digits * (lines.map fun x ↦ roundQuotient digits (total * weight x) d).sum) ≤
        2 * (total * (lines.map weight).sum * 10 ^ digits) +
          (10 ^ digits + 1) * d * lines.length := by
    intro lines hlines
    induction lines with
    | nil => simp
    | cons x lines ih =>
      have hx := two_mul_roundQuotient_le digits
        (mul_nonneg htotal (hlines x List.mem_cons_self)) hpos
      have hrest := ih fun y hy ↦ hlines y (List.mem_cons_of_mem x hy)
      rw [List.map_cons, List.sum_cons, List.map_cons, List.sum_cons, List.length_cons]
      push_cast
      linarith
  have hscale : (0 : ℤ) < 2 * (d * 10 ^ digits) := by positivity
  refine le_of_mul_le_mul_left ?_ hscale
  have hothers := hbound others hweight
  have hsum : (others.map weight).sum = d - weight first := by omega
  rw [hsum] at hothers
  linarith

/-- Sums of two columns computed in one window. -/
theorem sum_overRows_add (f g : List α → α → List α → ℤ) (lines : List α) :
    (Window.overRows (fun before x after ↦ f before x after + g before x after) lines).sum =
      (Window.overRows f lines).sum + (Window.overRows g lines).sum := by
  have hfrom : ∀ before, (Window.overFrom (fun b x a ↦ f b x a + g b x a) before lines).sum =
      (Window.overFrom f before lines).sum + (Window.overFrom g before lines).sum := by
    induction lines with
    | nil => exact fun _ ↦ rfl
    | cons x lines ih =>
      intro before
      simp only [Window.overFrom_cons, List.sum_cons, ih]
      omega
  exact hfrom []

theorem sum_overRows_neg (f : List α → α → List α → ℤ) (lines : List α) :
    (Window.overRows (fun before x after ↦ -f before x after) lines).sum =
      -(Window.overRows f lines).sum := by
  have hzero := sum_overRows_add f (fun before x after ↦ -f before x after) lines
  have hmap : Window.overRows (fun before x after ↦ f before x after + -f before x after) lines =
      lines.map fun _ ↦ 0 := by
    simp only [add_neg_cancel]
    exact Window.overFrom_of_map _ _ _
  rw [hmap, List.map_const', List.sum_replicate, nsmul_zero] at hzero
  omega

end Allocation
