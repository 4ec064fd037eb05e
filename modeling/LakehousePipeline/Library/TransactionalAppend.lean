import Mathlib.Data.List.Basic
import Mathlib.Logic.Function.Basic

/-!
# Appends with a transaction version

A table that remembers, for each application, the last version it has appended with, and skips an
append whose version is not above that one. A writer that repeats a version after a failure then
appends once.

What is remembered is a number, not what was appended. A row that carries the application and
version it was appended with (its `stamp`) can be found again (`rowsOf`), and as long as rows are
only appended under their own stamp (`Stamped`), what is found after an append is either exactly
what was appended (`Stamped.rowsOf_append`) or what was there before (`append_of_covers`) — whatever
that is.
-/

/-- A table, and the last version each application appended with. -/
structure TxnTable (R A : Type*) where
  /-- The rows. -/
  rows : List R
  /-- The last recorded version of an application. -/
  lastVersion : A → Option ℕ

namespace TxnTable

variable {R A : Type*} [DecidableEq A]

/-- The table before the first append. -/
def empty : TxnTable R A := ⟨[], fun _ ↦ none⟩

/-- Whether a version of an application is recorded, or one above it. -/
def covers (table : TxnTable R A) (app : A) (version : ℕ) : Bool :=
  (table.lastVersion app).any (version ≤ ·)

/-- **The append.** It is skipped where its version is covered. -/
def append (app : A) (version : ℕ) (rows : List R) (table : TxnTable R A) : TxnTable R A :=
  if table.covers app version then table
  else ⟨table.rows ++ rows, Function.update table.lastVersion app (some version)⟩

/-- The rows with a stamp. -/
def rowsOf (stamp : R → A × ℕ) (app : A) (version : ℕ) (table : TxnTable R A) : List R :=
  table.rows.filter fun row ↦ stamp row = (app, version)

/-- **Rows are there under versions that were appended.** -/
def Stamped (stamp : R → A × ℕ) (table : TxnTable R A) : Prop :=
  ∀ row ∈ table.rows, table.covers (stamp row).1 (stamp row).2 = true

variable {stamp : R → A × ℕ} {table : TxnTable R A} {app app' : A} {version version' : ℕ}
  {rows : List R}

omit [DecidableEq A] in
theorem covers_iff : table.covers app version = true ↔
    ∃ last, table.lastVersion app = some last ∧ version ≤ last := by
  simp [covers, Option.any_eq_true]

omit [DecidableEq A] in
@[simp] theorem covers_empty : (empty : TxnTable R A).covers app version = false := rfl

theorem append_of_covers (h : table.covers app version = true) :
    table.append app version rows = table :=
  if_pos h

theorem append_of_not_covers (h : ¬table.covers app version = true) :
    table.append app version rows =
      ⟨table.rows ++ rows, Function.update table.lastVersion app (some version)⟩ :=
  if_neg h

/-- **An append covers its version, and the versions below it.** -/
theorem covers_append : (table.append app version rows).covers app' version' = true ↔
    table.covers app' version' = true ∨ app' = app ∧ version' ≤ version := by
  rcases Decidable.em (table.covers app version = true) with h | h
  · rw [append_of_covers h]
    refine ⟨Or.inl, fun hor ↦ hor.elim id ?_⟩
    rintro ⟨rfl, hle⟩
    obtain ⟨last, hlast, hcovered⟩ := covers_iff.1 h
    exact covers_iff.2 ⟨last, hlast, by omega⟩
  · rw [append_of_not_covers h, covers_iff, covers_iff]
    simp only [covers_iff, not_exists, not_and] at h
    rcases Decidable.em (app' = app) with rfl | hne
    · show (∃ last, Function.update table.lastVersion app' (some version) app' = some last ∧
        version' ≤ last) ↔ _
      rw [Function.update_self]
      constructor
      · rintro ⟨last, hlast, hle⟩
        obtain rfl := Option.some.inj hlast
        exact Or.inr ⟨rfl, hle⟩
      · rintro (⟨last, hlast, hle⟩ | ⟨-, hle⟩)
        · have hlt := h last hlast
          exact ⟨version, rfl, by omega⟩
        · exact ⟨version, rfl, hle⟩
    · show (∃ last, Function.update table.lastVersion app (some version) app' = some last ∧
        version' ≤ last) ↔ _
      rw [Function.update_of_ne hne]
      refine ⟨Or.inl, fun hor ↦ hor.elim id fun happ ↦ absurd happ.1 hne⟩

omit [DecidableEq A] in
theorem stamped_empty : (empty : TxnTable R A).Stamped stamp := fun _ h ↦ by cases h

/-- Appending rows under their stamp keeps the table stamped. -/
theorem Stamped.append (h : table.Stamped stamp)
    (hrows : ∀ row ∈ rows, stamp row = (app, version)) :
    (table.append app version rows).Stamped stamp := by
  intro row hrow
  rw [covers_append]
  rcases Decidable.em (table.covers app version = true) with hcov | hcov
  · rw [append_of_covers hcov] at hrow
    exact Or.inl (h row hrow)
  · rw [append_of_not_covers hcov, List.mem_append] at hrow
    rcases hrow with hold | hnew
    · exact Or.inl (h row hold)
    · rw [hrows row hnew]
      exact Or.inr ⟨rfl, Nat.le_refl version⟩

/-- Under a version that is not covered there is nothing. -/
theorem Stamped.rowsOf_of_not_covers (h : table.Stamped stamp)
    (hcov : ¬table.covers app version = true) : table.rowsOf stamp app version = [] := by
  refine List.filter_eq_nil_iff.2 fun row hrow hstamp ↦ hcov ?_
  have hcovered := h row hrow
  rwa [of_decide_eq_true hstamp] at hcovered

/-- **An append that is not skipped is found again exactly.** -/
theorem Stamped.rowsOf_append (h : table.Stamped stamp)
    (hrows : ∀ row ∈ rows, stamp row = (app, version))
    (hcov : ¬table.covers app version = true) :
    (table.append app version rows).rowsOf stamp app version = rows := by
  rw [append_of_not_covers hcov, rowsOf, List.filter_append]
  have hnone := h.rowsOf_of_not_covers hcov
  rw [rowsOf] at hnone
  rw [hnone, List.nil_append, List.filter_eq_self]
  exact fun row hrow ↦ decide_eq_true (hrows row hrow)

end TxnTable
