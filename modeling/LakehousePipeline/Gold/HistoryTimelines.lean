import LakehousePipeline.Gold.Scd2Dimensions
import LakehousePipeline.Library.TemporalJoin
import Mathlib.Data.List.Pairwise

/-!
# The timelines of a change history

The states of one entity follow one another (`isTimeline_statesOf`), so the joins of two histories
are joins of timelines. The state in force at an instant is that of the last row of the entity at or
before it, in the order of `_history_states` (`isLastRow_of_inForce`).

There are two ways a row can lose its place. Rows of one time are told apart by the rest of the
order (`DistinctOrder`), and of these only the last one is in force at their time; the states of the
others are momentary (`DistinctOrder.not_isLastRow`). At distinct times (`DistinctTimes`) there is
no such state, and every row is the last one when it begins.

A state is in force from its start up to its end, exclusively, and the last state of an entity has
no end. So from its first row on an entity has exactly one state in force at each instant
(`exists_inForce`).
-/

namespace LakehousePipeline

open TemporalJoin

variable {K P : Type}

/-! ### The history in its own terms -/

/-- The last row of an entity at or before `t`, in the order of the history. -/
def IsLastRow (fns : SparkFunctions) (updatedAt : P → Option Timestamp)
    (history : List (HistoryRow K P)) (k : K) (t : Timestamp) (row : HistoryRow K P) : Prop :=
  row ∈ history ∧ row.key = k ∧ row.eventTime fns updatedAt ≤ t ∧
    ∀ r ∈ history, r.key = k → r.eventTime fns updatedAt ≤ t →
      historyOrder fns updatedAt r ≤ historyOrder fns updatedAt row

/-- Distinct event times within each entity. -/
def DistinctTimes (fns : SparkFunctions) (updatedAt : P → Option Timestamp)
    (history : List (HistoryRow K P)) : Prop :=
  history.Pairwise fun a b ↦ a.key = b.key → a.eventTime fns updatedAt ≠ b.eventTime fns updatedAt

/-- No two rows of an entity tie in the whole order. -/
def DistinctOrder (fns : SparkFunctions) (updatedAt : P → Option Timestamp)
    (history : List (HistoryRow K P)) : Prop :=
  history.Pairwise fun a b ↦ a.key = b.key →
    historyOrder fns updatedAt a ≠ historyOrder fns updatedAt b

/-- The states of an entity. -/
def statesOf [DecidableEq K] (fns : SparkFunctions) (updatedAt : P → Option Timestamp)
    (history : List (HistoryRow K P)) (k : K) : Set (HistoryState K P) :=
  {s | s ∈ historyStates fns updatedAt history ∧ s.row.key = k}

/-- The state is in force at `t`. -/
def HistoryState.InForce (s : HistoryState K P) (t : Timestamp) : Prop :=
  TemporalJoin.InForce (fun s : HistoryState K P ↦ s.stateFrom) (fun s ↦ s.stateTo) s t

section

variable {fns : SparkFunctions} {updatedAt : P → Option Timestamp} {history : List (HistoryRow K P)}

/-- The order of the history starts with the time. -/
theorem historyTime_le_of_order_le {a b : HistoryRow K P}
    (h : historyOrder fns updatedAt a ≤ historyOrder fns updatedAt b) :
    a.eventTime fns updatedAt ≤ b.eventTime fns updatedAt := by
  rcases Prod.Lex.toLex_le_toLex.1 h with hlt | ⟨heq, -⟩
  · exact hlt.le
  · exact heq.le

/-- A last row was the last row since its time. -/
theorem IsLastRow.mono {k : K} {t u : Timestamp} {row : HistoryRow K P}
    (h : IsLastRow fns updatedAt history k t row) (hle : row.eventTime fns updatedAt ≤ u)
    (hut : u ≤ t) : IsLastRow fns updatedAt history k u row :=
  ⟨h.1, h.2.1, hle, fun r hr hkey hru ↦ h.2.2.2 r hr hkey (hru.trans hut)⟩

/-- A row tied with a last row began with it. -/
theorem IsLastRow.eventTime_eq {k : K} {t : Timestamp} {row last : HistoryRow K P}
    (h : IsLastRow fns updatedAt history k t last) (hrow : row ∈ history) (hkey : row.key = k)
    (htime : row.eventTime fns updatedAt = t) : last.eventTime fns updatedAt = t :=
  le_antisymm h.2.2.1 (htime ▸ historyTime_le_of_order_le (h.2.2.2 row hrow hkey htime.le))

/-- Rows at distinct times do not tie. -/
theorem DistinctTimes.distinctOrder (h : DistinctTimes fns updatedAt history) :
    DistinctOrder fns updatedAt history :=
  List.Pairwise.imp (fun hne hkey heq ↦ hne hkey
    (le_antisymm (historyTime_le_of_order_le heq.le) (historyTime_le_of_order_le heq.ge))) h

/-- Rows that do not tie are told apart by their places in the order. -/
theorem DistinctOrder.eq_of_order_eq (h : DistinctOrder fns updatedAt history)
    {a b : HistoryRow K P} (ha : a ∈ history) (hb : b ∈ history) (hkey : a.key = b.key)
    (horder : historyOrder fns updatedAt a = historyOrder fns updatedAt b) : a = b := by
  by_contra hne
  have hsymm : Std.Symm fun a b : HistoryRow K P ↦
      a.key = b.key → historyOrder fns updatedAt a ≠ historyOrder fns updatedAt b :=
    ⟨fun _ _ hab hkey heq ↦ hab hkey.symm heq.symm⟩
  exact List.Pairwise.forall h ha hb hne hkey horder

/-- Without ties one row is the last. -/
theorem DistinctOrder.isLastRow_unique (h : DistinctOrder fns updatedAt history) {k : K}
    {a b : HistoryRow K P} {t : Timestamp} (ha : IsLastRow fns updatedAt history k t a)
    (hb : IsLastRow fns updatedAt history k t b) : a = b :=
  h.eq_of_order_eq ha.1 hb.1 (ha.2.1.trans hb.2.1.symm) <| le_antisymm
    (hb.2.2.2 a ha.1 ha.2.1 ha.2.2.1) (ha.2.2.2 b hb.1 hb.2.1 hb.2.2.1)

end

/-! ### The states of one entity -/

/-- A row as a state, with its end left open. -/
def HistoryRow.asState (fns : SparkFunctions) (updatedAt : P → Option Timestamp)
    (row : HistoryRow K P) : HistoryState K P where
  row := row
  stateFrom := row.eventTime fns updatedAt
  stateDeleted := row.operation = .delete
  stateTo := none

section States

variable [DecidableEq K] {fns : SparkFunctions} {updatedAt : P → Option Timestamp}
  {history : List (HistoryRow K P)}

/-- The rows of an entity in order. -/
def sortedRows (fns : SparkFunctions) (updatedAt : P → Option Timestamp)
    (history : List (HistoryRow K P)) (k : K) : List (HistoryRow K P) :=
  (history.filter fun row ↦ row.key = k).insertionSort fun a b ↦
    historyOrder fns updatedAt a ≤ historyOrder fns updatedAt b

/-- The sorted rows of an entity are its rows. -/
theorem mem_sortedRows {k : K} {row : HistoryRow K P} :
    row ∈ sortedRows fns updatedAt history k ↔ row ∈ history ∧ row.key = k := by
  rw [sortedRows, List.mem_insertionSort, List.mem_filter, decide_eq_true_eq]

/-- They are in the order of the history. -/
theorem sortedRows_pairwise (k : K) : (sortedRows fns updatedAt history k).Pairwise fun a b ↦
    historyOrder fns updatedAt a ≤ historyOrder fns updatedAt b :=
  List.pairwise_insertionSort _ _

/-- And so in the order of their times. -/
theorem sortedRows_pairwise_time (k : K) : (sortedRows fns updatedAt history k).Pairwise fun a b ↦
    a.eventTime fns updatedAt ≤ b.eventTime fns updatedAt :=
  (sortedRows_pairwise k).imp historyTime_le_of_order_le

/-- What holds of any two rows of an entity holds along its sorted rows. -/
theorem pairwise_sortedRows {R : HistoryRow K P → HistoryRow K P → Prop}
    (hsymm : ∀ {a b}, R a b → R b a) (h : history.Pairwise fun a b ↦ a.key = b.key → R a b)
    (k : K) : (sortedRows fns updatedAt history k).Pairwise R := by
  refine (List.Perm.pairwise_iff (fun hab ↦ hsymm hab) (List.perm_insertionSort _ _)).2 ?_
  refine List.Pairwise.imp_of_mem (fun {a b} ha hb hab ↦ hab ?_) (h.sublist List.filter_sublist)
  exact (of_decide_eq_true (List.mem_filter.1 ha).2).trans
    (of_decide_eq_true (List.mem_filter.1 hb).2).symm

/-- The states of an entity are cut from its sorted rows. -/
theorem statesOf_eq (k : K) : statesOf fns updatedAt history k =
    {s | s ∈ entityStates fns updatedAt (sortedRows fns updatedAt history k)} := by
  have hgroup := Window.filter_flatMap_partitionBy (fun row : HistoryRow K P ↦ row.key)
    (fun s : HistoryState K P ↦ s.row.key) history
    (h := fun p ↦ entityStates fns updatedAt (p.insertionSort fun a b ↦
      historyOrder fns updatedAt a ≤ historyOrder fns updatedAt b)) rfl
    (fun k s hs ↦ by
      obtain ⟨pre, row, post, hsplit, rfl⟩ := Window.mem_overRows.1 hs
      have hrow : row ∈ sortedRows fns updatedAt history k := by
        rw [sortedRows, hsplit]
        simp
      exact (mem_sortedRows.1 hrow).2) k
  ext s
  rw [Set.mem_ofPred_eq, sortedRows, ← hgroup, List.mem_filter, decide_eq_true_eq]
  rfl

/-- The states of an entity depend on its rows alone. -/
theorem statesOf_congr {history' : List (HistoryRow K P)} {k : K}
    (h : (history.filter fun row ↦ row.key = k) = history'.filter fun row ↦ row.key = k) :
    statesOf fns updatedAt history k = statesOf fns updatedAt history' k := by
  rw [statesOf_eq, statesOf_eq, sortedRows, sortedRows, h]

/-- A state, with its place among the rows of its entity. -/
theorem exists_split_of_mem_statesOf {k : K} {s : HistoryState K P}
    (hs : s ∈ statesOf fns updatedAt history k) :
    ∃ pre post, sortedRows fns updatedAt history k = pre ++ s.row :: post ∧
      s.stateFrom = s.row.eventTime fns updatedAt ∧
      s.stateDeleted = decide (s.row.operation = .delete) ∧
      s.stateTo = post.head?.map fun next ↦ next.eventTime fns updatedAt := by
  rw [statesOf_eq] at hs
  obtain ⟨pre, row, post, hsplit, rfl⟩ := Window.mem_overRows.1 hs
  exact ⟨pre, post, hsplit, rfl, rfl, rfl⟩

/-- A state of an entity is of one of its rows. -/
theorem mem_history_of_mem_statesOf {k : K} {s : HistoryState K P}
    (hs : s ∈ statesOf fns updatedAt history k) : s.row ∈ history ∧ s.row.key = k := by
  obtain ⟨pre, post, hsplit, -⟩ := exists_split_of_mem_statesOf hs
  exact mem_sortedRows.1 (hsplit ▸ List.mem_append_right _ List.mem_cons_self)

/-- A state begins at the time of its row. -/
theorem stateFrom_of_mem_statesOf {k : K} {s : HistoryState K P}
    (hs : s ∈ statesOf fns updatedAt history k) : s.stateFrom = s.row.eventTime fns updatedAt := by
  obtain ⟨-, -, -, hfrom, -⟩ := exists_split_of_mem_statesOf hs
  exact hfrom

/-- A state is deleted if its row is a delete. -/
theorem stateDeleted_of_mem_statesOf {k : K} {s : HistoryState K P}
    (hs : s ∈ statesOf fns updatedAt history k) :
    s.stateDeleted = decide (s.row.operation = .delete) := by
  obtain ⟨-, -, -, -, hdeleted, -⟩ := exists_split_of_mem_statesOf hs
  exact hdeleted

/-- **The states of an entity are a timeline.** -/
theorem isTimeline_statesOf (k : K) :
    IsTimeline (fun s : HistoryState K P ↦ s.stateFrom) (fun s ↦ s.stateTo)
      (statesOf fns updatedAt history k) := by
  rw [statesOf_eq]
  exact isTimeline_overRows (sortedRows_pairwise_time k) (fun _ _ _ ↦ rfl) fun _ _ _ ↦ rfl

variable (fns updatedAt) in
/-- Every row has a state. -/
theorem exists_mem_statesOf {row : HistoryRow K P} (hrow : row ∈ history) :
    ∃ s ∈ statesOf fns updatedAt history row.key, s.row = row := by
  have hsorted : row ∈ sortedRows fns updatedAt history row.key := mem_sortedRows.2 ⟨hrow, rfl⟩
  obtain ⟨pre, post, hsplit⟩ := List.append_of_mem hsorted
  refine ⟨⟨row, row.eventTime fns updatedAt, row.operation = .delete,
    post.head?.map fun next ↦ next.eventTime fns updatedAt⟩, ?_, rfl⟩
  rw [statesOf_eq]
  exact Window.mem_overRows.2 ⟨pre, row, post, hsplit, rfl⟩

/-- **The state in force at an instant is that of the last row.** -/
theorem isLastRow_of_inForce {k : K} {s : HistoryState K P} {t : Timestamp}
    (hs : s ∈ statesOf fns updatedAt history k) (hforce : s.InForce t) :
    IsLastRow fns updatedAt history k t s.row := by
  obtain ⟨hmem, hkey⟩ := mem_history_of_mem_statesOf hs
  have hle : s.stateFrom ≤ t := hforce.1
  rw [stateFrom_of_mem_statesOf hs] at hle
  obtain ⟨pre, post, hsplit, -, -, hto⟩ := exists_split_of_mem_statesOf hs
  refine ⟨hmem, hkey, hle, fun r hr hrk hrt ↦ ?_⟩
  refine le_of_lt_head (sortedRows_pairwise k) (sortedRows_pairwise_time k) hsplit (fun x hx ↦ ?_)
    (mem_sortedRows.2 ⟨hr, hrk⟩) hrt
  exact hforce.2 x (hto.trans hx)

/-- Since its first row an entity has a state in force. -/
theorem exists_inForce {k : K} {row : HistoryRow K P} {t : Timestamp} (hrow : row ∈ history)
    (hkey : row.key = k) (hle : row.eventTime fns updatedAt ≤ t) :
    ∃ s ∈ statesOf fns updatedAt history k, s.InForce t := by
  subst hkey
  obtain ⟨s, hs, hsrow⟩ := exists_mem_statesOf fns updatedAt hrow
  refine (isTimeline_statesOf row.key).covers s hs t ?_
  show s.stateFrom ≤ t
  rwa [stateFrom_of_mem_statesOf hs, hsrow]

/-- At distinct times no state is momentary. -/
theorem DistinctTimes.stateTo_ne (h : DistinctTimes fns updatedAt history) {k : K}
    {s : HistoryState K P} (hs : s ∈ statesOf fns updatedAt history k) :
    s.stateTo ≠ some s.stateFrom := by
  obtain ⟨pre, post, hsplit, hfrom, -, hto⟩ := exists_split_of_mem_statesOf hs
  rw [hto, hfrom]
  rcases post with - | ⟨next, post⟩
  · exact nofun
  · intro heq
    have htimes : (sortedRows fns updatedAt history k).Pairwise fun a b ↦
        a.eventTime fns updatedAt ≠ b.eventTime fns updatedAt :=
      pairwise_sortedRows Ne.symm h k
    rw [hsplit, List.pairwise_append, List.pairwise_cons] at htimes
    exact htimes.2.1.1 next List.mem_cons_self (Option.some.inj heq).symm

/-- Without ties the last row is that of the state in force. -/
theorem DistinctOrder.exists_inForce_of_isLastRow (h : DistinctOrder fns updatedAt history) {k : K}
    {row : HistoryRow K P} {t : Timestamp} (hlast : IsLastRow fns updatedAt history k t row) :
    ∃ s ∈ statesOf fns updatedAt history k, s.InForce t ∧ s.row = row := by
  obtain ⟨s, hs, hforce⟩ := exists_inForce hlast.1 hlast.2.1 hlast.2.2.1
  exact ⟨s, hs, hforce, h.isLastRow_unique (isLastRow_of_inForce hs hforce) hlast⟩

/-- Without ties the rows of an entity are strictly ordered. -/
theorem DistinctOrder.sortedRows_pairwise_lt (h : DistinctOrder fns updatedAt history) (k : K) :
    (sortedRows fns updatedAt history k).Pairwise fun a b ↦
      historyOrder fns updatedAt a < historyOrder fns updatedAt b := by
  have hne : (sortedRows fns updatedAt history k).Pairwise fun a b ↦
      historyOrder fns updatedAt a ≠ historyOrder fns updatedAt b :=
    pairwise_sortedRows Ne.symm h k
  exact ((sortedRows_pairwise k).and hne).imp fun ⟨hle, hne⟩ ↦ hle.lt_of_ne hne

/-- A state ends where a later row of the entity begins. -/
theorem DistinctOrder.exists_next (h : DistinctOrder fns updatedAt history) {k : K}
    {s : HistoryState K P} {x : Timestamp} (hs : s ∈ statesOf fns updatedAt history k)
    (hx : s.stateTo = some x) :
    ∃ next ∈ history, next.key = k ∧ next.eventTime fns updatedAt = x ∧
      historyOrder fns updatedAt s.row < historyOrder fns updatedAt next := by
  obtain ⟨pre, post, hsplit, -, -, hto⟩ := exists_split_of_mem_statesOf hs
  rw [hto, Option.map_eq_some_iff] at hx
  obtain ⟨next, hnext, rfl⟩ := hx
  have hpost : next ∈ post := List.mem_of_head? hnext
  have hrow : next ∈ sortedRows fns updatedAt history k := by simp [hsplit, hpost]
  have hsorted := h.sortedRows_pairwise_lt k
  rw [hsplit, List.pairwise_append, List.pairwise_cons] at hsorted
  obtain ⟨hmem, hkey⟩ := mem_sortedRows.1 hrow
  exact ⟨next, hmem, hkey, rfl, hsorted.2.1.1 next hpost⟩

/-- A state ends no later than a later row of the entity begins. -/
theorem exists_stateTo_le {k : K} {s : HistoryState K P} {next : HistoryRow K P}
    (hs : s ∈ statesOf fns updatedAt history k) (hnext : next ∈ history) (hkey : next.key = k)
    (hlt : historyOrder fns updatedAt s.row < historyOrder fns updatedAt next) :
    ∃ x, s.stateTo = some x ∧ x ≤ next.eventTime fns updatedAt := by
  obtain ⟨pre, post, hsplit, -, -, hto⟩ := exists_split_of_mem_statesOf hs
  have hin : next ∈ sortedRows fns updatedAt history k := mem_sortedRows.2 ⟨hnext, hkey⟩
  have hsorted : (sortedRows fns updatedAt history k).Pairwise fun a b ↦
      historyOrder fns updatedAt a ≤ historyOrder fns updatedAt b := sortedRows_pairwise k
  have htimes : (sortedRows fns updatedAt history k).Pairwise fun a b ↦
      a.eventTime fns updatedAt ≤ b.eventTime fns updatedAt := sortedRows_pairwise_time k
  rw [hsplit, List.pairwise_append, List.pairwise_cons] at hsorted htimes
  rw [hsplit, List.mem_append, List.mem_cons] at hin
  rcases hin with hpre | rfl | hpost
  · exact absurd (hsorted.2.2 next hpre _ List.mem_cons_self) hlt.not_ge
  · exact absurd hlt (lt_irrefl _)
  · rcases post with - | ⟨first, post⟩
    · cases hpost
    · refine ⟨_, hto, ?_⟩
      show first.eventTime fns updatedAt ≤ next.eventTime fns updatedAt
      rcases List.mem_cons.1 hpost with rfl | hpost
      · exact le_rfl
      · exact (List.pairwise_cons.1 htimes.2.1.2).1 next hpost

/-- A state that lasts is in force when it begins. -/
theorem inForce_stateFrom {k : K} {s : HistoryState K P} (hs : s ∈ statesOf fns updatedAt history k)
    (hlasts : s.stateTo ≠ some s.stateFrom) : s.InForce s.stateFrom :=
  ⟨le_rfl, fun t ht ↦ ((isTimeline_statesOf k).ordered s hs t ht).lt_of_ne fun heq ↦
    hlasts (heq ▸ ht)⟩

/-- The row of a momentary state is not the last one when it begins. -/
theorem DistinctOrder.not_isLastRow (h : DistinctOrder fns updatedAt history) {k : K}
    {s : HistoryState K P} (hs : s ∈ statesOf fns updatedAt history k)
    (hmomentary : s.stateTo = some s.stateFrom) :
    ¬IsLastRow fns updatedAt history k s.stateFrom s.row := by
  intro hlast
  obtain ⟨next, hnext, hkey, htime, hlt⟩ := h.exists_next hs hmomentary
  exact absurd (hlast.2.2.2 next hnext hkey htime.le) hlt.not_ge

end States

end LakehousePipeline
