import Mathlib.Data.List.Perm.Basic

/-!
# Change feeds

A change of a table is reported by the rows it took out and the rows it put in. The report accounts
for the change when the rows before and the rows put in are, counted with repetitions, the rows
after and the rows taken out. A report may be redundant: a row that is rewritten as it was is taken
out and put in again, and an overwrite takes out every row. What no redundancy can hide is a
difference: if the rows taken out are those put in, the table is what it was
(`Accounts.perm_of_perm`).
-/

namespace ChangeFeed

variable {R S : Type*} {before middle after removed added removed' added' : List R}

/-- The rows taken out and the rows put in account for a change. -/
def Accounts (before removed added after : List R) : Prop :=
  (before ++ added).Perm (after ++ removed)

/-- Nothing is reported of a table that stays as it is, up to the order of its rows. -/
theorem accounts_of_perm (h : before.Perm after) : Accounts before [] [] after := by
  rw [Accounts, List.append_nil, List.append_nil]
  exact h

/-- An overwrite. -/
theorem accounts_overwrite (before after : List R) : Accounts before before after after :=
  List.perm_append_comm

/-- Reports of parts of a table. -/
theorem Accounts.append {before' after' : List R} (h : Accounts before removed added after)
    (h' : Accounts before' removed' added' after') :
    Accounts (before ++ before') (removed ++ removed') (added ++ added') (after ++ after') := by
  have hswap : ∀ a b c d : List R, ((a ++ b) ++ (c ++ d)).Perm ((a ++ c) ++ (b ++ d)) := by
    intro a b c d
    rw [List.append_assoc, List.append_assoc, ← List.append_assoc b, ← List.append_assoc c]
    exact (List.perm_append_comm.append_right d).append_left a
  exact ((hswap _ _ _ _).trans (List.Perm.append h h')).trans (hswap _ _ _ _)

/-- The rows before, in another order. -/
theorem Accounts.of_perm_left {before' : List R} (h : Accounts before removed added after)
    (hbefore : before'.Perm before) : Accounts before' removed added after :=
  (hbefore.append_right added).trans h

/-- A report of the rows is one of what is read from them. -/
theorem Accounts.map (h : Accounts before removed added after) (f : R → S) :
    Accounts (before.map f) (removed.map f) (added.map f) (after.map f) := by
  have hmap := List.Perm.map f h
  rwa [List.map_append, List.map_append] at hmap

/-- A report of the rows is one of those with a property. -/
theorem Accounts.filter (h : Accounts before removed added after) (p : R → Bool) :
    Accounts (before.filter p) (removed.filter p) (added.filter p) (after.filter p) := by
  have hfilter := List.Perm.filter p h
  rwa [List.filter_append, List.filter_append] at hfilter

/-- **Rows taken out and put in again change nothing.** -/
theorem Accounts.perm_of_perm (h : Accounts before removed added after)
    (hsame : removed.Perm added) : before.Perm after :=
  (List.perm_append_right_iff added).1 (List.Perm.trans h (hsame.append_left after))

end ChangeFeed
