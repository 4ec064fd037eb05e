import Mathlib.Algebra.BigOperators.Group.List.Basic
import Mathlib.Algebra.Ring.Int.Defs
import Mathlib.Data.Char
import Mathlib.Data.Int.Order.Basic
import Mathlib.Data.List.Dedup
import Mathlib.Data.List.Lex
import Mathlib.Data.List.Sort
import Mathlib.Data.Option.NAry
import Mathlib.Data.Prod.Lex
import Mathlib.Order.WithBot

/-!
# The Spark functions the transformations call

Texts are lists of characters and timestamps are integers (microseconds of local wall-clock time),
so that everything the pipeline itself computes stays a plain function. What it takes from Spark
without looking inside (hashing, rendering of values as text, time-zone arithmetic, JSON access) is
one record of functions, `SparkFunctions`; no law is assumed about them here, and a result that
needs one (no two hashed texts collide, say) says so where it is stated.

Sort keys put nulls last in ascending order and, dually, last in descending order: `WithTop` and
`WithBot` are those two conventions.
-/

namespace LakehousePipeline

/-- Text values. -/
abbrev Text := List Char

/-- Texts are compared character by character. -/
instance lawfulBEqText : LawfulBEq (List Char) := List.instLawfulBEq

/-- Pairs of numbers are compared component by component. -/
instance lawfulBEqPair : LawfulBEq (ℤ × ℤ) := Prod.instLawfulBEq

/-- Timestamps, in microseconds. -/
abbrev Timestamp := ℤ

/-- The functions of `pyspark.sql.functions` the transformations rely on and do not define. -/
structure SparkFunctions where
  /-- `sha2(_, 256)`. -/
  sha256 : Text → Text
  /-- `xxhash64(_)`. -/
  xxhash64 : Text → ℤ
  /-- `cast(_ as string)` of an integer. -/
  castInt : ℤ → Text
  /-- `cast(_ as string)` of a timestamp. -/
  castTimestamp : Timestamp → Text
  /-- `cast(_ as string)` of a `decimal(8,3)`, given in thousandths. -/
  castWeight : ℤ → Text
  /-- `cast(_ as string)` of a boolean. -/
  castBool : Bool → Text
  /-- `from_utc_timestamp(_, session time zone)`. -/
  fromUtcTimestamp : Timestamp → Timestamp
  /-- `get_json_object(json, "$." + field)`. -/
  getJsonObject : Text → Text → Option Text
  /-- `date_format(_, "yyyyMMdd")` as an integer, of a day since 1970-01-01. -/
  dateFormat : ℤ → ℤ

/-- Functions to run the transformations on concrete rows: numbers are rendered in decimal, the
hashes keep short texts apart, and the session time zone is UTC. -/
def SparkFunctions.plain : SparkFunctions where
  sha256 := id
  xxhash64 text := text.foldl (fun acc c ↦ acc * 128 + c.toNat) 1
  castInt n := if n < 0 then '-' :: Nat.toDigits 10 n.natAbs else Nat.toDigits 10 n.natAbs
  castTimestamp t := Nat.toDigits 10 t.natAbs
  castWeight w := Nat.toDigits 10 w.natAbs
  castBool b := if b then ['t', 'r', 'u', 'e'] else ['f', 'a', 'l', 's', 'e']
  fromUtcTimestamp := id
  getJsonObject _ _ := none
  dateFormat day := 19700101 + day

/-! ### Text -/

/-- The separator `"||"` between hashed columns. -/
def hashSeparator : Text := ['|', '|']

/-- `concat_ws`: null arguments are skipped, separator included. -/
def concatWs (separator : Text) (columns : List (Option Text)) : Text :=
  separator.intercalate (columns.filterMap id)

/-- The first separator ends a text that has none of its characters. -/
theorem append_hashSeparator_inj {a b x y : Text} (ha : '|' ∉ a) (hb : '|' ∉ b)
    (h : a ++ (hashSeparator ++ x) = b ++ (hashSeparator ++ y)) : a = b ∧ x = y := by
  induction a generalizing b with
  | nil =>
    rcases b with - | ⟨c, b⟩
    · exact ⟨rfl, List.append_cancel_left h⟩
    · obtain ⟨rfl, -⟩ := List.cons.inj h
      exact absurd List.mem_cons_self hb
  | cons c a ih =>
    rcases b with - | ⟨d, b⟩
    · obtain ⟨rfl, -⟩ := List.cons.inj h
      exact absurd List.mem_cons_self ha
    · obtain ⟨rfl, htail⟩ := List.cons.inj h
      rw [List.mem_cons, not_or] at ha hb
      obtain ⟨rfl, rfl⟩ := ih ha.2 hb.2 htail
      exact ⟨rfl, rfl⟩

/-- **Spark renders distinct values as distinct texts**, and uses no separator. -/
structure SparkFunctions.LawfulCasts (fns : SparkFunctions) : Prop where
  /-- Integers. -/
  castInt : Function.Injective fns.castInt
  /-- Timestamps. -/
  castTimestamp : Function.Injective fns.castTimestamp
  /-- Digits and a sign. -/
  separator_castInt : ∀ n, '|' ∉ fns.castInt n
  /-- Digits, dashes and colons. -/
  separator_castTimestamp : ∀ t, '|' ∉ fns.castTimestamp t

/-- The plain functions, with instants before 1970 kept apart from those after. -/
def SparkFunctions.signed : SparkFunctions :=
  { SparkFunctions.plain with castTimestamp := SparkFunctions.plain.castInt }

theorem castInt_plain_injective : Function.Injective SparkFunctions.plain.castInt := by
  have hdigits : ∀ {m n : ℕ}, Nat.toDigits 10 m = Nat.toDigits 10 n → m = n := fun {m n} h ↦ by
    rw [← Nat.ofDigitChars_ten_toDigits (n := m), h, Nat.ofDigitChars_ten_toDigits]
  have hsign : ∀ {n : ℕ}, '-' ∉ Nat.toDigits 10 n := fun {n} hmem ↦
    absurd (Nat.isDigit_of_mem_toDigits (by decide) (by decide) hmem) (by decide)
  intro m n h
  simp only [SparkFunctions.plain] at h
  split at h
  · split at h
    · have habs := hdigits (List.cons.inj h).2
      omega
    · exact absurd (h ▸ List.mem_cons_self) hsign
  · split at h
    · exact absurd (h ▸ List.mem_cons_self) hsign
    · have habs := hdigits h
      omega

theorem separator_notMem_castInt_plain (n : ℤ) : '|' ∉ SparkFunctions.plain.castInt n := by
  have hdigits : ∀ {n : ℕ}, '|' ∉ Nat.toDigits 10 n := fun {n} hmem ↦
    absurd (Nat.isDigit_of_mem_toDigits (by decide) (by decide) hmem) (by decide)
  simp only [SparkFunctions.plain]
  split
  · rw [List.mem_cons, not_or]
    exact ⟨by decide, hdigits⟩
  · exact hdigits

theorem lawfulCasts_signed : SparkFunctions.signed.LawfulCasts where
  castInt := castInt_plain_injective
  castTimestamp := castInt_plain_injective
  separator_castInt := separator_notMem_castInt_plain
  separator_castTimestamp := separator_notMem_castInt_plain

/-! ### Null-aware order keys -/

/-- The integers as sort keys compare as the linear order does, so that comparing keys computes. -/
instance sortKeyPartialOrder : PartialOrder ℤ := Int.instLinearOrder.toPartialOrder

/-- `asc_nulls_last`. -/
def ascNullsLast {α : Type*} (value : Option α) : WithTop α := value

/-- `desc_nulls_last`, to be compared downwards: null is below every value. -/
def descNullsLast {α : Type*} (value : Option α) : WithBot α := value

/-- `least` of a nullable and a non-null value: nulls are skipped. -/
def leastOf (value : Option Timestamp) (other : Timestamp) : Timestamp :=
  (value.getD other) ⊓ other

theorem leastOf_le (value : Option Timestamp) (other : Timestamp) : leastOf value other ≤ other :=
  inf_le_right

/-- `greatest` of two nullable values: nulls are skipped. -/
def greatestOf (a b : Option ℤ) : Option ℤ :=
  match a, b with
  | some a, some b => some (a ⊔ b)
  | a, none => a
  | none, b => b

/-- `trim`: spaces at both ends are removed. -/
def trim (text : Text) : Text :=
  ((text.dropWhile (· = ' ')).reverse.dropWhile (· = ' ')).reverse

/-! ### Null-aware columns -/

/-- `==` of two columns as a join or filter condition: null is equal to nothing. -/
def equalColumns {α : Type*} [DecidableEq α] (a b : Option α) : Bool :=
  match a, b with
  | some a, some b => a = b
  | _, _ => false

@[simp] theorem equalColumns_eq_true_iff {α : Type*} [DecidableEq α] {a b : Option α} :
    equalColumns a b = true ↔ ∃ x, a = some x ∧ b = some x := by
  cases a <;> cases b <;> simp [equalColumns, eq_comm]

theorem equalColumns_some {α : Type*} [DecidableEq α] (a : α) (b : Option α) :
    equalColumns (some a) b = decide (b = some a) := by
  cases b with
  | none => rfl
  | some b => simp [equalColumns, eq_comm]

/-- `+` of two columns: null if one of them is. -/
def plus (a b : Option ℤ) : Option ℤ :=
  Option.map₂ (· + ·) a b

/-- `-` of two columns: null if one of them is. -/
def minus (a b : Option ℤ) : Option ℤ :=
  Option.map₂ (· - ·) a b

/-- `*` of two columns: null if one of them is. -/
def times (a b : Option ℤ) : Option ℤ :=
  Option.map₂ (· * ·) a b

@[simp] theorem plus_some (a b : ℤ) : plus (some a) (some b) = some (a + b) := rfl
@[simp] theorem minus_some (a b : ℤ) : minus (some a) (some b) = some (a - b) := rfl
@[simp] theorem times_some (a b : ℤ) : times (some a) (some b) = some (a * b) := rfl

/-- `sum`: nulls are skipped, and a sum of nothing is null. -/
def sumOf (values : List (Option ℤ)) : Option ℤ :=
  match values.filterMap id with
  | [] => none
  | value :: rest => some (value + rest.sum)

theorem sumOf_map_some {values : List ℤ} (hne : values ≠ []) :
    sumOf (values.map some) = some values.sum := by
  cases values with
  | nil => exact absurd rfl hne
  | cons value rest => simp [sumOf, List.filterMap_map]

/-- A sum is null when nothing is recorded. -/
theorem sumOf_eq_none_iff {values : List (Option ℤ)} :
    sumOf values = none ↔ ∀ value ∈ values, value = none := by
  have hnil : sumOf values = none ↔ values.filterMap id = [] := by
    rw [sumOf]
    rcases values.filterMap id with - | ⟨value, rest⟩ <;> simp
  rw [hnil, List.filterMap_eq_nil_iff]
  rfl

/-- `min`: nulls are skipped. -/
def minOf (values : List (Option ℤ)) : Option ℤ :=
  (values.filterMap id).min?

/-- `max`: nulls are skipped. -/
def maxOf (values : List (Option ℤ)) : Option ℤ :=
  (values.filterMap id).max?

/-- `sort_array(collect_set(_))`: the distinct non-null texts in order. -/
def sortedSetOf (values : List (Option Text)) : List Text :=
  (values.filterMap id).dedup.insertionSort fun a b ↦ a ≤ b

/-! ### Aggregates do not depend on the order of the rows -/

theorem sumOf_eq_of_perm {xs ys : List (Option ℤ)} (h : xs.Perm ys) : sumOf xs = sumOf ys := by
  have hperm := h.filterMap id
  have hsum : ∀ values : List (Option ℤ), values.filterMap id ≠ [] →
      sumOf values = some (values.filterMap id).sum := by
    intro values hne
    rw [sumOf]
    split
    · rename_i hnil
      exact absurd hnil hne
    · rename_i value rest heq
      rw [heq, List.sum_cons]
  rcases Decidable.em (xs.filterMap id = []) with hnil | hne
  · rw [hnil, List.nil_perm] at hperm
    rw [sumOf, sumOf, hnil, hperm]
  · have hne' : ys.filterMap id ≠ [] := fun hnil ↦ hne (List.perm_nil.1 (hnil ▸ hperm))
    rw [hsum xs hne, hsum ys hne', hperm.sum_eq]

theorem minOf_eq_of_perm {xs ys : List (Option ℤ)} (h : xs.Perm ys) : minOf xs = minOf ys := by
  have hperm := h.filterMap id
  rw [minOf, minOf]
  cases hmin : (xs.filterMap id).min? with
  | none =>
    rw [List.min?_eq_none_iff] at hmin
    rw [hmin, List.nil_perm] at hperm
    rw [hperm]
    rfl
  | some a =>
    rw [List.min?_eq_some_iff] at hmin
    refine (List.min?_eq_some_iff.2 ⟨hperm.mem_iff.1 hmin.1, fun b hb ↦ ?_⟩).symm
    exact hmin.2 b (hperm.mem_iff.2 hb)

theorem maxOf_eq_of_perm {xs ys : List (Option ℤ)} (h : xs.Perm ys) : maxOf xs = maxOf ys := by
  have hperm := h.filterMap id
  rw [maxOf, maxOf]
  cases hmax : (xs.filterMap id).max? with
  | none =>
    rw [List.max?_eq_none_iff] at hmax
    rw [hmax, List.nil_perm] at hperm
    rw [hperm]
    rfl
  | some a =>
    rw [List.max?_eq_some_iff] at hmax
    refine (List.max?_eq_some_iff.2 ⟨hperm.mem_iff.1 hmax.1, fun b hb ↦ ?_⟩).symm
    exact hmax.2 b (hperm.mem_iff.2 hb)

theorem sortedSetOf_eq_of_perm {xs ys : List (Option Text)} (h : xs.Perm ys) :
    sortedSetOf xs = sortedSetOf ys := by
  have hperm : (xs.filterMap id).dedup.Perm (ys.filterMap id).dedup := (h.filterMap id).dedup
  rw [sortedSetOf, sortedSetOf]
  refine @List.Perm.eq_of_pairwise Text (fun a b ↦ a ≤ b) _ _
    (fun a b _ _ hab hba ↦ le_antisymm hab hba) (List.pairwise_insertionSort _ _)
    (List.pairwise_insertionSort _ _)
    (((List.perm_insertionSort _ _).trans hperm).trans (List.perm_insertionSort _ _).symm)

/-! ### Dates and times of day -/

/-- `to_date`, in days since 1970-01-01. -/
def toDate (t : Timestamp) : ℤ :=
  t / 86400000000

/-- `hour`. -/
def hour (t : Timestamp) : ℤ :=
  t / 3600000000 % 24

/-- `minute`. -/
def minute (t : Timestamp) : ℤ :=
  t / 60000000 % 60

/-- `second`. -/
def second (t : Timestamp) : ℤ :=
  t / 1000000 % 60

end LakehousePipeline
