import Mathlib.Data.List.Induction
import Mathlib.Logic.Function.Basic

/-!
# A table and the log of its changes

Every change of a row is recorded with the key of the row and the row after the change, none for a
delete. Played back from the beginning the log gives the table, and of each key the last entry
decides (`replay_eq`): what was recorded before it does not matter.
-/

namespace RowLog

variable {E K V : Type*} [DecidableEq K] (key : E → K) (after : E → Option V)

/-- The table after one more change. -/
def apply (table : K → Option V) (e : E) : K → Option V :=
  Function.update table (key e) (after e)

/-- The table the log leads to. -/
def replay (log : List E) : K → Option V :=
  log.foldl (apply key after) fun _ ↦ none

/-- The last change of a key. -/
def lastOf (k : K) (log : List E) : Option E :=
  (log.filter fun e ↦ key e = k).getLast?

variable {key after} {log : List E} {k : K}

@[simp] theorem lastOf_nil (k : K) : lastOf key k [] = none := rfl

theorem lastOf_concat_of_eq {e : E} (h : key e = k) : lastOf key k (log ++ [e]) = some e := by
  rw [lastOf, List.filter_append, List.filter_cons_of_pos (by simp [h]), List.filter_nil]
  exact List.getLast?_concat

theorem lastOf_concat_of_ne {e : E} (h : key e ≠ k) :
    lastOf key k (log ++ [e]) = lastOf key k log := by
  rw [lastOf, List.filter_append, List.filter_cons_of_neg (by simp [h]), List.filter_nil,
    List.append_nil]
  rfl

theorem replay_concat (log : List E) (e : E) :
    replay key after (log ++ [e]) = apply key after (replay key after log) e := by
  rw [replay, List.foldl_append]
  rfl

/-- **The last change of a key decides.** -/
theorem replay_eq (log : List E) (k : K) :
    replay key after log k = (lastOf key k log).bind after := by
  induction log using List.reverseRecOn with
  | nil => rfl
  | append_singleton init e ih =>
    rw [replay_concat, apply]
    rcases eq_or_ne (key e) k with rfl | hne
    · rw [Function.update_self, lastOf_concat_of_eq rfl, Option.bind_some]
    · rw [Function.update_of_ne hne.symm, lastOf_concat_of_ne hne, ih]

/-- The last change of a key is a change of the key. -/
theorem mem_of_lastOf {e : E} (h : lastOf key k log = some e) : e ∈ log ∧ key e = k := by
  obtain ⟨hmem, hkey⟩ := List.mem_filter.1 (List.mem_of_getLast? h)
  exact ⟨hmem, of_decide_eq_true hkey⟩

theorem lastOf_eq_none_iff : lastOf key k log = none ↔ ∀ e ∈ log, key e ≠ k := by
  rw [lastOf, List.getLast?_eq_none_iff, List.filter_eq_nil_iff]
  exact forall₂_congr fun e _ ↦ not_congr decide_eq_true_iff

end RowLog
