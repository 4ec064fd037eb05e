import LakehousePipeline.Library.ThreeValued
import Mathlib.Data.List.Forall2
import Mathlib.Data.Option.NAry
import Mathlib.Order.Lattice

/-!
# SQL conditions, from their tokens to their truth

A condition is handed over as text. `read` makes a condition of its tokens by the rules of SQL:
`AND` binds tighter than `OR`, both join from the left, and parentheses make a condition an operand.
`Condition.eval` is its truth over columns that may be null.

Texts are put together by joining operands and setting parentheses. `Reads` says that tokens are one
operand wherever an operand may stand, and it is kept by both (`Reads.joined`), so what such a text
means follows how it was put together.
-/

namespace SqlCondition

open ThreeValued

variable {C : Type*}

/-- A comparison of columns. -/
inductive Predicate (C : Type*)
  /-- `IS NULL`. -/
  | isNull (column : C)
  /-- `IS NOT NULL`. -/
  | isNotNull (column : C)
  /-- `>`. -/
  | greater (left right : C)
  /-- `<=>`. -/
  | nullSafeEqual (left right : C)
  deriving DecidableEq

/-- `AND` and `OR`. -/
inductive Connective
  | and
  | or
  deriving DecidableEq

/-- A condition. -/
inductive Condition (C : Type*)
  | predicate (p : Predicate C)
  | join (op : Connective) (left right : Condition C)
  deriving DecidableEq

/-- A token of the text of a condition. -/
inductive Token (C : Type*)
  | predicate (p : Predicate C)
  | connective (op : Connective)
  | leftParen
  | rightParen
  deriving DecidableEq

/-! ### Reading -/

/-- What has been read since a parenthesis was opened: the conditions that `OR` has joined, those
that `AND` has joined since, and the operand after the last connective. -/
structure Level (C : Type*) where
  alternatives : Option (Condition C)
  conjuncts : Option (Condition C)
  operand : Option (Condition C)

/-- Nothing has been read. -/
def Level.start : Level C where
  alternatives := none
  conjuncts := none
  operand := none

/-- The level with an operand read. -/
def Level.holding (level : Level C) (c : Condition C) : Level C :=
  { level with operand := some c }

/-- The operands since the last `OR`. -/
def Level.conjunction (level : Level C) : Option (Condition C) :=
  level.operand.map fun c ↦ level.conjuncts.elim c fun left ↦ .join .and left c

/-- All that has been read. -/
def Level.condition (level : Level C) : Option (Condition C) :=
  level.conjunction.map fun c ↦ level.alternatives.elim c fun left ↦ .join .or left c

/-- One token, with the open parentheses as a stack; `none` if it may not stand here. -/
def step : List (Level C) → Token C → Option (List (Level C))
  | level :: stack, .predicate p =>
    if level.operand.isNone then some (level.holding (.predicate p) :: stack) else none
  | level :: stack, .leftParen =>
    if level.operand.isNone then some (Level.start :: level :: stack) else none
  | level :: outer :: stack, .rightParen =>
    level.condition.map fun c ↦ outer.holding c :: stack
  | level :: stack, .connective .and =>
    level.conjunction.map fun c ↦ { level with conjuncts := some c, operand := none } :: stack
  | level :: stack, .connective .or =>
    level.condition.map fun c ↦ { Level.start with alternatives := some c } :: stack
  | _, _ => none

/-- The condition of a text, if it is one. -/
def read (tokens : List (Token C)) : Option (Condition C) :=
  (tokens.foldlM step [Level.start]).bind fun stack ↦
    match stack with
    | [level] => level.condition
    | _ => none

/-- The tokens are one operand wherever an operand may stand. -/
def Reads (tokens : List (Token C)) (c : Condition C) : Prop :=
  ∀ (level : Level C) (stack : List (Level C)), level.operand = none →
    tokens.foldlM step (level :: stack) = some (level.holding c :: stack)

theorem reads_predicate (p : Predicate C) : Reads [.predicate p] (.predicate p) := by
  intro level stack hnone
  show (step (level :: stack) (.predicate p)).bind some = _
  rw [step, hnone]
  rfl

/-- A level that waits for the next operand of a chain. -/
def Level.waiting : Connective → Condition C → Level C
  | .and, c => { Level.start with conjuncts := some c }
  | .or, c => { Level.start with alternatives := some c }

@[simp] theorem operand_waiting (op : Connective) (c : Condition C) :
    (Level.waiting op c).operand = none := by
  cases op <;> rfl

/-- A connective after the first operand of a chain. -/
theorem step_start (op : Connective) (c : Condition C) (stack : List (Level C)) :
    step (Level.start.holding c :: stack) (.connective op) =
      some (Level.waiting op c :: stack) := by
  cases op <;> rfl

/-- A connective after a later operand. -/
theorem step_waiting (op : Connective) (c d : Condition C) (stack : List (Level C)) :
    step ((Level.waiting op c).holding d :: stack) (.connective op) =
      some (Level.waiting op (.join op c d) :: stack) := by
  cases op <;> rfl

@[simp] theorem condition_start (c : Condition C) : (Level.start.holding c).condition = some c :=
  rfl

@[simp] theorem condition_waiting (op : Connective) (c d : Condition C) :
    ((Level.waiting op c).holding d).condition = some (.join op c d) := by
  cases op <;> rfl

/-- A chain after its first operand. The induction is on the operands still to come, and the chain
so far is generalised. -/
theorem foldlM_waiting (op : Connective) {parts : List (List (Token C))}
    {conditions : List (Condition C)} (hrest : List.Forall₂ Reads parts conditions)
    {part : List (Token C)} {d : Condition C} (hpart : Reads part d) (c : Condition C)
    (stack : List (Level C)) :
    ∃ level, ([.connective op].intercalate (part :: parts)).foldlM step
        (Level.waiting op c :: stack) = some (level :: stack) ∧
      level.condition = some (conditions.foldl (.join op) (.join op c d)) := by
  induction hrest generalizing part c d with
  | nil =>
    rw [List.intercalate_singleton, hpart _ _ (operand_waiting op c)]
    exact ⟨_, rfl, condition_waiting op c d⟩
  | @cons next e parts conditions hnext _ ih =>
    rw [List.intercalate_cons_cons, List.append_assoc, List.foldlM_append,
      hpart _ _ (operand_waiting op c)]
    show ∃ level, ((step _ (.connective op)).bind fun stack' ↦ List.foldlM step stack' _) = _ ∧ _
    rw [step_waiting, Option.bind_some]
    exact ih hnext (.join op c d)

/-- A chain that starts a level. -/
theorem foldlM_start (op : Connective) {parts : List (List (Token C))}
    {conditions : List (Condition C)} (hrest : List.Forall₂ Reads parts conditions)
    {part : List (Token C)} {c : Condition C} (hpart : Reads part c) (stack : List (Level C)) :
    ∃ level, ([.connective op].intercalate (part :: parts)).foldlM step (Level.start :: stack) =
        some (level :: stack) ∧
      level.condition = some (conditions.foldl (.join op) c) := by
  cases hrest with
  | nil =>
    rw [List.intercalate_singleton, hpart _ _ rfl]
    exact ⟨_, rfl, condition_start c⟩
  | @cons next d parts conditions hnext hrest =>
    rw [List.intercalate_cons_cons, List.append_assoc, List.foldlM_append, hpart _ _ rfl]
    show ∃ level, ((step _ (.connective op)).bind fun stack' ↦ List.foldlM step stack' _) = _ ∧ _
    rw [step_start, Option.bind_some]
    exact foldlM_waiting op hrest hnext c stack

/-- **A chain of operands in parentheses is an operand.** -/
theorem Reads.joined (op : Connective) {parts : List (List (Token C))}
    {conditions : List (Condition C)} (hrest : List.Forall₂ Reads parts conditions)
    {part : List (Token C)} {c : Condition C} (hpart : Reads part c) :
    Reads (.leftParen :: [.connective op].intercalate (part :: parts) ++ [.rightParen])
      (conditions.foldl (.join op) c) := by
  intro level stack hnone
  obtain ⟨inner, hread, hcondition⟩ := foldlM_start op hrest hpart (level :: stack)
  have hopen : step (level :: stack) (.leftParen : Token C) =
      some (Level.start :: level :: stack) := by
    rw [step, hnone]
    rfl
  rw [List.cons_append, List.foldlM_cons, hopen]
  show List.foldlM step (Level.start :: level :: stack) _ = _
  rw [List.foldlM_append, hread]
  show (step (inner :: level :: stack) .rightParen).bind some = _
  rw [step, hcondition]
  rfl

/-- A single operand in parentheses. -/
theorem Reads.group {tokens : List (Token C)} {c : Condition C} (h : Reads tokens c) :
    Reads (.leftParen :: tokens ++ [.rightParen]) c := by
  have hjoined := Reads.joined .and .nil h
  rwa [List.intercalate_singleton] at hjoined

/-- **A chain of operands is a text.** -/
theorem read_joined (op : Connective) {parts : List (List (Token C))}
    {conditions : List (Condition C)} (hrest : List.Forall₂ Reads parts conditions)
    {part : List (Token C)} {c : Condition C} (hpart : Reads part c) :
    read ([.connective op].intercalate (part :: parts)) =
      some (conditions.foldl (.join op) c) := by
  obtain ⟨level, hread, hcondition⟩ := foldlM_start op hrest hpart []
  rw [read, hread]
  exact hcondition

/-! ### Truth -/

/-- The truth of a connective. -/
def Connective.apply : Connective → Truth → Truth → Truth
  | .and => Truth.and
  | .or => Truth.or

variable {V : Type*} [LinearOrder V] (value : C → Option V)

/-- The truth of a comparison. -/
def Predicate.eval : Predicate C → Truth
  | .isNull column => some (value column).isNone
  | .isNotNull column => some (value column).isSome
  | .greater left right => Option.map₂ (fun x y ↦ decide (y < x)) (value left) (value right)
  | .nullSafeEqual left right => some (decide (value left = value right))

/-- The truth of a condition. -/
def Condition.eval : Condition C → Truth
  | .predicate p => p.eval value
  | .join op left right => op.apply left.eval right.eval

/-- The condition is not null, and is true exactly if the proposition holds. -/
def Condition.Says (c : Condition C) (P : Prop) : Prop :=
  ∃ b, c.eval value = some b ∧ (b = true ↔ P)

variable {value} {c d : Condition C} {P Q : Prop}

theorem Condition.Says.congr (h : c.Says value P) (hiff : P ↔ Q) : c.Says value Q := by
  obtain ⟨b, hb, hP⟩ := h
  exact ⟨b, hb, hP.trans hiff⟩

theorem Condition.Says.and (hc : c.Says value P) (hd : d.Says value Q) :
    (Condition.join .and c d).Says value (P ∧ Q) := by
  obtain ⟨a, ha, hP⟩ := hc
  obtain ⟨b, hb, hQ⟩ := hd
  refine ⟨a && b, ?_, by rw [Bool.and_eq_true, hP, hQ]⟩
  rw [Condition.eval, ha, hb]
  cases a <;> cases b <;> rfl

theorem Condition.Says.or (hc : c.Says value P) (hd : d.Says value Q) :
    (Condition.join .or c d).Says value (P ∨ Q) := by
  obtain ⟨a, ha, hP⟩ := hc
  obtain ⟨b, hb, hQ⟩ := hd
  refine ⟨a || b, ?_, by rw [Bool.or_eq_true, hP, hQ]⟩
  rw [Condition.eval, ha, hb]
  cases a <;> cases b <;> rfl

section Chain

variable {α : Type*} {f : α → Condition C} {R : α → Prop} {xs : List α}

/-- **A chain of `AND`** is not null if none of its conditions is. -/
theorem Condition.Says.all (hc : c.Says value P) (h : ∀ x ∈ xs, (f x).Says value (R x)) :
    ((xs.map f).foldl (.join .and) c).Says value (P ∧ ∀ x ∈ xs, R x) := by
  induction xs generalizing c P with
  | nil => exact hc.congr (by simp)
  | cons x xs ih =>
    rw [List.forall_mem_cons] at h
    refine (ih (hc.and h.1) h.2).congr ?_
    rw [List.forall_mem_cons, and_assoc]

/-- **A chain of `OR`** is not null if none of its conditions is. -/
theorem Condition.Says.any (hc : c.Says value P) (h : ∀ x ∈ xs, (f x).Says value (R x)) :
    ((xs.map f).foldl (.join .or) c).Says value (P ∨ ∃ x ∈ xs, R x) := by
  induction xs generalizing c P with
  | nil => exact hc.congr (by simp)
  | cons x xs ih =>
    rw [List.forall_mem_cons] at h
    refine (ih (hc.or h.1) h.2).congr ?_
    rw [List.exists_mem_cons_iff, or_assoc]

end Chain

end SqlCondition
