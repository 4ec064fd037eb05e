import Mathlib.Data.List.Sort
import Mathlib.Order.MinMax

/-!
# Polling an append-only log

A log of entries with increasing stamps is read in steps: a reader that has read up to a cursor asks
for an upper bound that leaves at most `limit` unread entries below it, and reads what is between.
Entries that arrive in the meantime have larger stamps, so they move neither the bound nor what is
below it. What is read between the two is the next `limit` unread entries (`between_bound`), and it
goes on exactly from what was read before (`upTo_perm`).
-/

namespace PolledLog

variable {E K : Type*} [LinearOrder K] (stamp : E → K)

/-- Later entries have larger stamps. -/
def Increasing (log : List E) : Prop :=
  log.Pairwise fun a b ↦ stamp a < stamp b

/-- The entries a reader at the cursor has read. -/
def upTo (cursor : K) (log : List E) : List E :=
  log.filter fun e ↦ stamp e ≤ cursor

/-- The entries it has not read. -/
def unread (cursor : K) (log : List E) : List E :=
  log.filter fun e ↦ cursor < stamp e

/-- The entries it reads up to a bound. -/
def between (cursor bound : K) (log : List E) : List E :=
  log.filter fun e ↦ cursor < stamp e ∧ stamp e ≤ bound

/-- The largest of the `limit` smallest unread stamps. -/
def bound (limit : ℕ) (cursor : K) (log : List E) : Option K :=
  ((((unread stamp cursor log).map stamp).insertionSort (· ≤ ·)).take limit).max?

variable {stamp} {log more : List E} {cursor b : K} {limit : ℕ}

/-! ### The bound -/

theorem Increasing.unread (h : Increasing stamp log) (cursor : K) :
    Increasing stamp (unread stamp cursor log) :=
  h.filter _

/-- In an increasing log the unread stamps come in order. -/
theorem bound_eq (h : Increasing stamp log) (limit : ℕ) (cursor : K) :
    bound stamp limit cursor log =
      (((unread stamp cursor log).take limit).map stamp).max? := by
  have hsorted : ((unread stamp cursor log).map stamp).Pairwise (· ≤ ·) :=
    List.pairwise_map.2 ((h.unread cursor).imp le_of_lt)
  rw [bound, hsorted.insertionSort_eq, List.map_take]

/-- There is no bound exactly where all is read. -/
theorem bound_eq_none_iff (hlimit : 0 < limit) :
    bound stamp limit cursor log = none ↔ unread stamp cursor log = [] := by
  rw [bound, List.max?_eq_none_iff, List.take_eq_nil_iff, ← List.length_eq_zero_iff,
    List.length_insertionSort, List.length_map, List.length_eq_zero_iff]
  exact or_iff_right hlimit.ne'

/-- The bound is the stamp of an unread entry. -/
theorem exists_of_bound (h : bound stamp limit cursor log = some b) :
    ∃ e ∈ log, stamp e = b ∧ cursor < b := by
  have hmem := List.mem_of_mem_take (List.max?_mem h)
  obtain ⟨e, he, rfl⟩ := List.mem_map.1 ((List.mem_insertionSort _).1 hmem)
  obtain ⟨hin, hlt⟩ := List.mem_filter.1 he
  exact ⟨e, hin, rfl, of_decide_eq_true hlt⟩

/-- Below the largest stamp of the first entries are the first entries. -/
theorem filter_le_max_take (h : Increasing stamp log)
    (hmax : ((log.take limit).map stamp).max? = some b) :
    log.filter (fun e ↦ stamp e ≤ b) = log.take limit := by
  obtain ⟨hmem, hle⟩ := List.max?_eq_some_iff.1 hmax
  obtain ⟨last, hlast, rfl⟩ := List.mem_map.1 hmem
  have hsplit : (log.take limit ++ log.drop limit).Pairwise fun a b ↦ stamp a < stamp b := by
    rw [List.take_append_drop]
    exact h
  have hbefore := (List.pairwise_append.1 hsplit).2.2
  have htake : (log.take limit).filter (fun e ↦ stamp e ≤ stamp last) = log.take limit :=
    List.filter_eq_self.2 fun e he ↦ decide_eq_true (hle _ (List.mem_map_of_mem he))
  have hdrop : (log.drop limit).filter (fun e ↦ stamp e ≤ stamp last) = [] := by
    refine List.filter_eq_nil_iff.2 fun e he ↦ ?_
    rw [decide_eq_true_iff, not_le]
    exact hbefore last hlast e he
  calc log.filter (fun e ↦ stamp e ≤ stamp last)
      = (log.take limit ++ log.drop limit).filter (fun e ↦ stamp e ≤ stamp last) := by
        rw [List.take_append_drop]
    _ = log.take limit := by rw [List.filter_append, htake, hdrop, List.append_nil]

/-- **What is read up to the bound** is the next `limit` unread entries. -/
theorem between_bound (h : Increasing stamp log) (hbound : bound stamp limit cursor log = some b) :
    between stamp cursor b log = (unread stamp cursor log).take limit := by
  rw [bound_eq h] at hbound
  rw [← filter_le_max_take (h.unread cursor) hbound, unread, List.filter_filter, between]
  refine List.filter_congr fun e _ ↦ ?_
  rw [Bool.decide_and, Bool.and_comm]

/-! ### Going on -/

/-- **Reading goes on from the cursor**, without a gap and without a repetition. -/
theorem upTo_perm (hle : cursor ≤ b) :
    (upTo stamp cursor log ++ between stamp cursor b log).Perm (upTo stamp b log) := by
  have hold : (upTo stamp b log).filter (fun e ↦ stamp e ≤ cursor) = upTo stamp cursor log := by
    rw [upTo, upTo, List.filter_filter]
    refine List.filter_congr fun e _ ↦ ?_
    rw [← Bool.decide_and]
    exact decide_eq_decide.2 ⟨fun hboth ↦ hboth.1, fun hcursor ↦ ⟨hcursor, hcursor.trans hle⟩⟩
  have hnew : (upTo stamp b log).filter (fun e ↦ !decide (stamp e ≤ cursor)) =
      between stamp cursor b log := by
    rw [upTo, List.filter_filter, between]
    refine List.filter_congr fun e _ ↦ ?_
    rw [← decide_not, ← Bool.decide_and]
    exact decide_eq_decide.2 (and_congr_left fun _ ↦ not_le)
  rw [← hold, ← hnew]
  exact List.filter_append_perm _ _

/-- Nothing is between the cursor and itself. -/
theorem between_self (cursor : K) (log : List E) : between stamp cursor cursor log = [] :=
  List.filter_eq_nil_iff.2 fun e _ ↦ by
    rw [decide_eq_true_iff]
    exact fun h ↦ absurd h.1 (not_lt_of_ge h.2)

/-- The largest stamp of what is read up to an entry, in whatever order, is that of the entry. -/
theorem max_of_perm_between {e : E} (he : e ∈ log) (hlt : cursor < stamp e) {read : List E}
    (hread : read.Perm (between stamp cursor (stamp e) log)) :
    (read.map stamp).max? = some (stamp e) := by
  have hmem : ∀ x, x ∈ read ↔ x ∈ log ∧ cursor < stamp x ∧ stamp x ≤ stamp e := fun x ↦ by
    rw [hread.mem_iff, between, List.mem_filter, decide_eq_true_iff]
  refine List.max?_eq_some_iff.2 ⟨?_, fun k hk ↦ ?_⟩
  · exact List.mem_map_of_mem ((hmem e).2 ⟨he, hlt, le_rfl⟩)
  · obtain ⟨x, hx, rfl⟩ := List.mem_map.1 hk
    exact ((hmem x).1 hx).2.2

/-! ### Entries that arrive later -/

/-- Entries above the bound are not read. -/
theorem between_append (h : ∀ e ∈ more, b < stamp e) :
    between stamp cursor b (log ++ more) = between stamp cursor b log := by
  have hmore : more.filter (fun e ↦ cursor < stamp e ∧ stamp e ≤ b) = [] := by
    refine List.filter_eq_nil_iff.2 fun e he ↦ ?_
    rw [decide_eq_true_iff]
    exact fun hread ↦ absurd hread.2 (not_le_of_gt (h e he))
  rw [between, List.filter_append, hmore, List.append_nil]
  rfl

theorem upTo_append (h : ∀ e ∈ more, cursor < stamp e) :
    upTo stamp cursor (log ++ more) = upTo stamp cursor log := by
  have hmore : more.filter (fun e ↦ stamp e ≤ cursor) = [] := by
    refine List.filter_eq_nil_iff.2 fun e he ↦ ?_
    rw [decide_eq_true_iff]
    exact not_le_of_gt (h e he)
  rw [upTo, List.filter_append, hmore, List.append_nil]
  rfl

/-- In an increasing log, what arrives after an entry is above it. -/
theorem Increasing.lt_of_append (h : Increasing stamp (log ++ more)) {e : E} (he : e ∈ log) :
    ∀ x ∈ more, stamp e < stamp x :=
  fun x hx ↦ (List.pairwise_append.1 h).2.2 e he x hx

/-- The last entry has the largest stamp. -/
theorem Increasing.le_getLast? (h : Increasing stamp log) {e last : E} (he : e ∈ log)
    (hlast : last ∈ log.getLast?) : stamp e ≤ stamp last := by
  obtain ⟨init, rfl⟩ := List.getLast?_eq_some_iff.1 hlast
  rcases List.mem_append.1 he with hinit | hsame
  · exact (h.lt_of_append hinit last List.mem_cons_self).le
  · rw [List.mem_singleton.1 hsame]

/-- No two entries have one stamp. -/
theorem Increasing.eq_of_stamp_eq (h : Increasing stamp log) {e e' : E} (he : e ∈ log)
    (he' : e' ∈ log) (heq : stamp e = stamp e') : e = e' := by
  have hnodup : (log.map stamp).Nodup :=
    (List.pairwise_map.2 h).imp fun hlt ↦ ne_of_lt hlt
  exact List.inj_on_of_nodup_map hnodup he he' heq

end PolledLog
