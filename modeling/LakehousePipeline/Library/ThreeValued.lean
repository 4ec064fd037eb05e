import Mathlib.Data.Option.Basic

/-!
# Conditions with null

A condition over columns that may be null is true, false or null. A connective of null is null
unless the other side decides it, `CASE WHEN` takes a branch only if its condition is true, and
`COALESCE` takes the first value that is not null. So a check that reports an error `WHEN` its
condition holds is silent where the condition is null, and a list of such checks accepts what makes
no condition true (`coalesce_eq_none`).
-/

namespace ThreeValued

/-- True, false or null. -/
abbrev Truth := Option Bool

/-- `NOT`. -/
def Truth.not (a : Truth) : Truth :=
  a.map (! ·)

/-- `AND`. -/
def Truth.and : Truth → Truth → Truth
  | some false, _ | _, some false => some false
  | some true, b => b
  | none, _ => none

/-- `OR`. -/
def Truth.or : Truth → Truth → Truth
  | some true, _ | _, some true => some true
  | some false, b => b
  | none, _ => none

/-- Conditions joined by `OR`, from false on. -/
def Truth.any (conditions : List Truth) : Truth :=
  conditions.foldl Truth.or (some false)

variable {α : Type*}

/-- `IN`. -/
def isIn [DecidableEq α] (a : Option α) (values : List α) : Truth :=
  a.map fun a ↦ decide (a ∈ values)

/-- `CASE WHEN`, without `ELSE`. -/
def caseWhen (branches : List (Truth × α)) : Option α :=
  (branches.find? fun branch ↦ branch.1 = some true).map Prod.snd

/-- `COALESCE`. -/
def coalesce (values : List (Option α)) : Option α :=
  values.findSome? id

variable {a b : Truth}

@[simp] theorem not_eq_true : a.not = some true ↔ a = some false := by
  rcases a with - | - | - <;> decide

@[simp] theorem and_eq_true : a.and b = some true ↔ a = some true ∧ b = some true := by
  rcases a with - | - | - <;> rcases b with - | - | - <;> decide

@[simp] theorem or_eq_true : a.or b = some true ↔ a = some true ∨ b = some true := by
  rcases a with - | - | - <;> rcases b with - | - | - <;> decide

@[simp] theorem any_eq_true {conditions : List Truth} :
    Truth.any conditions = some true ↔ ∃ a ∈ conditions, a = some true := by
  have hfold : ∀ b : Truth, conditions.foldl Truth.or b = some true ↔
      b = some true ∨ ∃ a ∈ conditions, a = some true := by
    induction conditions with
    | nil => simp
    | cons a conditions ih =>
      intro b
      simp only [List.foldl_cons, ih, or_eq_true, or_assoc, List.mem_cons, exists_eq_or_imp]
  rw [Truth.any, hfold]
  exact or_iff_right (by decide)

@[simp] theorem isIn_eq_true [DecidableEq α] {a : Option α} {values : List α} :
    isIn a values = some true ↔ ∃ x ∈ values, a = some x := by
  rcases a with - | x
  · exact iff_of_false nofun nofun
  · simp [isIn]

/-- `IN` is false only of a value that is not null. -/
theorem isIn_eq_false [DecidableEq α] {a : Option α} {values : List α} :
    isIn a values = some false ↔ ∃ x, a = some x ∧ x ∉ values := by
  rcases a with - | x
  · exact iff_of_false nofun nofun
  · simp [isIn]

/-- **No branch is taken exactly if no condition is true.** -/
theorem caseWhen_eq_none {branches : List (Truth × α)} :
    caseWhen branches = none ↔ ∀ branch ∈ branches, branch.1 ≠ some true := by
  rw [caseWhen, Option.map_eq_none_iff, List.find?_eq_none]
  simp only [decide_eq_true_eq]

/-- A single check is silent exactly if its condition is not true. -/
@[simp] theorem caseWhen_singleton_eq_none {x : α} : caseWhen [(a, x)] = none ↔ a ≠ some true := by
  rw [caseWhen_eq_none, List.forall_mem_singleton]

/-- **A list of checks accepts what none of them objects to.** -/
theorem coalesce_eq_none {values : List (Option α)} :
    coalesce values = none ↔ ∀ x ∈ values, x = none :=
  List.findSome?_eq_none_iff

end ThreeValued
