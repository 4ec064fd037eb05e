import LakehousePipeline.Library.Checks
import Mathlib.Data.List.Nodup

/-!
# Tables with primary and foreign keys

A table is a list of rows with a primary key. A row is inserted if its key is new and a check of the
other columns passes; an `UPDATE` changes the rows of a condition and leaves their keys; rows of one
table refer to rows of another (`Refers`), and a delete that cascades takes the rows that refer to
the deleted one with it.

Inserts are checked one by one, as a database does, and `insertRows_eq_ok_iff` says what that comes
to for a list of rows: that all keys are distinct afterwards and every row passes. The check of the
other columns is a parameter and must not look at the table itself. What it may look at are other
tables, so foreign keys are among the checks, and `Refers` is what they leave behind.
-/

namespace KeyedTables

open Checks

variable {R S κ ε : Type} [DecidableEq κ]

/-! ### Inserts -/

section Insert

variable {key : R → κ} {check : R → Except ε Unit} {duplicate : ε} {rows rows' added : List R}
  {row : R}

/-- One `INSERT`. -/
def insertRow (key : R → κ) (check : R → Except ε Unit) (duplicate : ε) (rows : List R) (row : R) :
    Except ε (List R) := do
  ensure (key row ∉ rows.map key) duplicate
  check row
  return rows ++ [row]

/-- Inserts one after the other, with a check that does not look at the table itself. -/
def insertRows (key : R → κ) (check : R → Except ε Unit) (duplicate : ε) (rows : List R) :
    List R → Except ε (List R)
  | [] => .ok rows
  | row :: added => do
    let rows ← insertRow key check duplicate rows row
    insertRows key check duplicate rows added

omit [DecidableEq κ] in
/-- One more key is distinct from the others if it is new. -/
theorem nodup_map_append_singleton : ((rows ++ [row]).map key).Nodup ↔
    (rows.map key).Nodup ∧ key row ∉ rows.map key := by
  rw [List.map_append, List.map_singleton, List.nodup_append]
  constructor
  · rintro ⟨hkeys, -, hne⟩
    exact ⟨hkeys, fun hmem ↦ hne _ hmem _ (List.mem_singleton_self _) rfl⟩
  · rintro ⟨hkeys, hnew⟩
    refine ⟨hkeys, List.nodup_singleton _, fun k hk l hl heq ↦ hnew ?_⟩
    rw [← List.mem_singleton.1 hl, ← heq]
    exact hk

/-- A row is inserted if its key is new and its check passes. -/
theorem insertRow_eq_ok_iff : insertRow key check duplicate rows row = .ok rows' ↔
    key row ∉ rows.map key ∧ check row = .ok () ∧ rows' = rows ++ [row] := by
  rw [insertRow, ensure_bind_eq_ok, bind_eq_ok]
  refine and_congr_right fun _ ↦ ?_
  constructor
  · rintro ⟨⟨⟩, hcheck, ⟨⟩⟩
    exact ⟨hcheck, rfl⟩
  · rintro ⟨hcheck, rfl⟩
    exact ⟨(), hcheck, rfl⟩

/-- **Inserts add their rows**: the keys are new and distinct, and every row passes its check. -/
theorem insertRows_eq_ok_iff (hkeys : (rows.map key).Nodup) :
    insertRows key check duplicate rows added = .ok rows' ↔
      ((rows ++ added).map key).Nodup ∧ (∀ row ∈ added, check row = .ok ()) ∧
        rows' = rows ++ added := by
  induction added generalizing rows with
  | nil =>
    rw [List.append_nil]
    constructor
    · rintro ⟨⟩
      exact ⟨hkeys, fun _ h ↦ (by cases h), rfl⟩
    · rintro ⟨-, -, rfl⟩
      rfl
  | cons row added ih =>
    have happend : rows ++ row :: added = rows ++ [row] ++ added := by simp
    rw [insertRows, bind_eq_ok, happend]
    constructor
    · rintro ⟨next, hnext, hrest⟩
      obtain ⟨hnew, hcheck, rfl⟩ := insertRow_eq_ok_iff.1 hnext
      obtain ⟨hnodup, hchecks, heq⟩ := (ih (nodup_map_append_singleton.2 ⟨hkeys, hnew⟩)).1 hrest
      exact ⟨hnodup, List.forall_mem_cons.2 ⟨hcheck, hchecks⟩, heq⟩
    · rintro ⟨hnodup, hchecks, rfl⟩
      obtain ⟨hcheck, hchecks⟩ := List.forall_mem_cons.1 hchecks
      have hprefix : ((rows ++ [row]).map key).Nodup :=
        hnodup.sublist ((List.sublist_append_left _ _).map _)
      refine ⟨_, insertRow_eq_ok_iff.2 ⟨(nodup_map_append_singleton.1 hprefix).2, hcheck, rfl⟩, ?_⟩
      exact (ih hprefix).2 ⟨hnodup, hchecks, rfl⟩

end Insert

/-! ### Updates -/

/-- `UPDATE` of the rows of a condition. -/
def updateWhere (p : R → Bool) (f : R → R) (rows : List R) : List R :=
  rows.map fun row ↦ if p row then f row else row

section Update

variable {p : R → Bool} {f : R → R} {rows : List R}

/-- What an update leaves of a row, it leaves of every row. -/
theorem map_updateWhere {α : Type} {column : R → α} (h : ∀ row, column (f row) = column row) :
    (updateWhere p f rows).map column = rows.map column := by
  rw [updateWhere, List.map_map]
  refine List.map_congr_left fun row _ ↦ ?_
  show column (if p row then f row else row) = column row
  split
  · exact h row
  · rfl

/-- A row after an update was a row before it. -/
theorem mem_updateWhere {row : R} (h : row ∈ updateWhere p f rows) :
    ∃ old ∈ rows, row = if p old then f old else old := by
  obtain ⟨old, hold, rfl⟩ := List.mem_map.1 h
  exact ⟨old, hold, rfl⟩

/-- What holds of the rows holds after an update that keeps it. -/
theorem forall_mem_updateWhere {P : R → Prop} (h : ∀ row ∈ rows, P row)
    (hf : ∀ row ∈ rows, p row = true → P row → P (f row)) :
    ∀ row ∈ updateWhere p f rows, P row := by
  intro row hrow
  obtain ⟨old, hold, rfl⟩ := mem_updateWhere hrow
  split
  · exact hf old hold ‹_› (h old hold)
  · exact h old hold

/-- The rows of a condition the update does not move in or out of. -/
theorem filter_updateWhere {q : R → Bool} (h : ∀ row, q (f row) = q row) :
    (updateWhere p f rows).filter q = updateWhere p f (rows.filter q) := by
  rw [updateWhere, List.filter_map, updateWhere]
  refine congrArg _ (List.filter_congr fun row _ ↦ ?_)
  show q (if p row then f row else row) = q row
  split
  · exact h row
  · rfl

end Update

/-! ### References -/

/-- Every row of the one table refers to a row of the other. -/
def Refers (key : R → κ) (reference : S → κ) (parents : List R) (children : List S) : Prop :=
  ∀ child ∈ children, ∃ parent ∈ parents, key parent = reference child

/-- The rows that refer to a key. -/
def childrenOf (reference : S → κ) (k : κ) (children : List S) : List S :=
  children.filter fun child ↦ reference child = k

section References

variable {key : R → κ} {reference : S → κ} {parents parents' : List R} {children added : List S}
  {k : κ}

/-- The rows that refer to a key. -/
theorem mem_childrenOf {child : S} :
    child ∈ childrenOf reference k children ↔ child ∈ children ∧ reference child = k := by
  rw [childrenOf, List.mem_filter, decide_eq_true_iff]

/-- The rows of two tables that refer to a key. -/
theorem childrenOf_append : childrenOf reference k (children ++ added) =
    childrenOf reference k children ++ childrenOf reference k added :=
  List.filter_append _ _

/-- Where all rows refer to the key. -/
theorem childrenOf_eq_self (h : ∀ child ∈ children, reference child = k) :
    childrenOf reference k children = children :=
  List.filter_eq_self.2 fun child hchild ↦ decide_eq_true (h child hchild)

/-- Where none does. -/
theorem childrenOf_eq_nil (h : ∀ child ∈ children, reference child ≠ k) :
    childrenOf reference k children = [] :=
  List.filter_eq_nil_iff.2 fun child hchild heq ↦ h child hchild (of_decide_eq_true heq)

/-- New rows of another key. -/
theorem childrenOf_append_of_ne (h : ∀ child ∈ added, reference child ≠ k) :
    childrenOf reference k (children ++ added) = childrenOf reference k children := by
  rw [childrenOf_append, childrenOf_eq_nil h, List.append_nil]

/-- A key that is not there is not referred to. -/
theorem Refers.childrenOf_eq_nil (h : Refers key reference parents children)
    (hk : k ∉ parents.map key) : childrenOf reference k children = [] := by
  refine KeyedTables.childrenOf_eq_nil fun child hchild heq ↦ hk ?_
  obtain ⟨parent, hparent, hkey⟩ := h child hchild
  exact List.mem_map.2 ⟨parent, hparent, hkey.trans heq⟩

/-- The rows that come with a new key are those that refer to it. -/
theorem Refers.childrenOf_append (h : Refers key reference parents children)
    (hk : k ∉ parents.map key) (hadded : ∀ child ∈ added, reference child = k) :
    childrenOf reference k (children ++ added) = added := by
  rw [KeyedTables.childrenOf_append, h.childrenOf_eq_nil hk, childrenOf_eq_self hadded,
    List.nil_append]

omit [DecidableEq κ] in
/-- Only the keys of the parents matter. -/
theorem Refers.of_keys (h : Refers key reference parents children)
    (hkeys : ∀ parent ∈ parents, key parent ∈ parents'.map key) :
    Refers key reference parents' children := by
  intro child hchild
  obtain ⟨parent, hparent, hkey⟩ := h child hchild
  obtain ⟨parent', hparent', heq⟩ := List.mem_map.1 (hkeys parent hparent)
  exact ⟨parent', hparent', heq.trans hkey⟩

omit [DecidableEq κ] in
/-- A row and rows that refer to it. -/
theorem Refers.append {parent : R} (h : Refers key reference parents children)
    (hadded : ∀ child ∈ added, reference child = key parent) :
    Refers key reference (parents ++ [parent]) (children ++ added) := by
  intro child hchild
  rcases List.mem_append.1 hchild with hchild | hchild
  · obtain ⟨old, hold, hkey⟩ := h child hchild
    exact ⟨old, List.mem_append_left _ hold, hkey⟩
  · exact ⟨parent, by simp, (hadded child hchild).symm⟩

omit [DecidableEq κ] in
/-- An update that leaves the references. -/
theorem Refers.updateWhere {p : S → Bool} {f : S → S}
    (h : Refers key reference parents children)
    (hf : ∀ child, reference (f child) = reference child) :
    Refers key reference parents (updateWhere p f children) :=
  forall_mem_updateWhere h fun child _ _ hparent ↦ by rwa [hf]

/-- **A delete that cascades leaves no reference to the deleted row.** -/
theorem Refers.cascade (h : Refers key reference parents children) (k : κ) :
    Refers key reference (parents.filter fun parent ↦ key parent ≠ k)
      (children.filter fun child ↦ reference child ≠ k) := by
  intro child hchild
  obtain ⟨hmem, hne⟩ := List.mem_filter.1 hchild
  obtain ⟨parent, hparent, hkey⟩ := h child hmem
  refine ⟨parent, List.mem_filter.2 ⟨hparent, ?_⟩, hkey⟩
  rwa [hkey]

/-- And leaves the rows that refer to another. -/
theorem childrenOf_cascade {k' : κ} (hne : k' ≠ k) :
    childrenOf reference k' (children.filter fun child ↦ reference child ≠ k) =
      childrenOf reference k' children := by
  rw [childrenOf, List.filter_filter]
  refine List.filter_congr fun child _ ↦ ?_
  by_cases h : reference child = k'
  · simp [h, hne]
  · simp [h]

/-- An update of the rows that refer to a key is one of the rows that refer to it. -/
theorem childrenOf_updateWhere {f : S → S} (hf : ∀ child, reference (f child) = reference child) :
    childrenOf reference k (updateWhere (fun child ↦ reference child = k) f children) =
      (childrenOf reference k children).map f := by
  rw [childrenOf, filter_updateWhere fun child ↦ by rw [hf]]
  refine List.map_congr_left fun child hchild ↦ if_pos ?_
  exact (List.mem_filter.1 hchild).2

/-- And leaves the rows that refer to another. -/
theorem childrenOf_updateWhere_of_ne {f : S → S} {k' : κ} (hne : k' ≠ k)
    (hf : ∀ child, reference (f child) = reference child) :
    childrenOf reference k' (updateWhere (fun child ↦ reference child = k) f children) =
      childrenOf reference k' children := by
  rw [childrenOf, filter_updateWhere fun child ↦ by rw [hf]]
  refine (List.map_congr_left fun child hchild ↦ if_neg ?_).trans (List.map_id _)
  have hkey : reference child = k' := of_decide_eq_true (List.mem_filter.1 hchild).2
  show ¬decide (reference child = k) = true
  rw [hkey, decide_eq_true_iff]
  exact hne

end References

end KeyedTables
