import Mathlib.Data.List.Nodup
import Mathlib.Data.List.Perm.Basic

/-!
# Joins and duplicate removal on tables

A table is a list of rows compared up to permutation. A join is given by its condition, so
equi-joins and range joins are one definition. What the results need of a join is mostly that it is
at most one-to-one: a left join whose condition matches at most one row on the right is a map
(`leftJoin_eq_map`), which neither drops nor multiplies rows.
-/

namespace Relational

variable {α β κ : Type*}

/-- A left outer join: every left row with its matches, or with none. -/
def leftJoin (on : α → β → Bool) (left : List α) (right : List β) : List (α × Option β) :=
  left.flatMap fun a ↦
    match right.filter (on a) with
    | [] => [(a, none)]
    | matched => matched.map fun b ↦ (a, some b)

/-- An inner join: the pairs of rows the condition holds of. -/
def innerJoin (on : α → β → Bool) (left : List α) (right : List β) : List (α × β) :=
  left.flatMap fun a ↦ (right.filter (on a)).map fun b ↦ (a, b)

/-- A left join whose result is recorded in the left row. -/
def leftJoinWith (on : α → β → Bool) (set : α → Option β → α) (left : List α) (right : List β) :
    List α :=
  (leftJoin on left right).map fun (a, b) ↦ set a b

/-- One row per key, the first that occurs. -/
def dropDuplicatesOn [DecidableEq κ] (key : α → κ) : List α → List α
  | [] => []
  | x :: rest => x :: (dropDuplicatesOn key rest).filter fun y ↦ key y ≠ key x

/-! ### The rows of a join -/

theorem mem_innerJoin {on : α → β → Bool} {left : List α} {right : List β} {a : α} {b : β} :
    (a, b) ∈ innerJoin on left right ↔ a ∈ left ∧ b ∈ right ∧ on a b = true := by
  simp only [innerJoin, List.mem_flatMap, List.mem_map, List.mem_filter, Prod.mk.injEq]
  constructor
  · rintro ⟨a', ha, b', ⟨hb, hon⟩, rfl, rfl⟩
    exact ⟨ha, hb, hon⟩
  · rintro ⟨ha, hb, hon⟩
    exact ⟨a, ha, b, ⟨hb, hon⟩, rfl, rfl⟩

/-- A left row comes with each of its matches, and alone if it has none. -/
theorem mem_leftJoin {on : α → β → Bool} {left : List α} {right : List β} {a : α} {b? : Option β} :
    (a, b?) ∈ leftJoin on left right ↔ a ∈ left ∧
      ((∃ b ∈ right, on a b = true ∧ b? = some b) ∨ (∀ b ∈ right, on a b = false) ∧ b? = none) := by
  have hrow : ∀ x : α, (a, b?) ∈ (match right.filter (on x) with
      | [] => [(x, none)]
      | matched => matched.map fun b ↦ (x, some b)) ↔ a = x ∧
        ((∃ b ∈ right, on x b = true ∧ b? = some b) ∨
          (∀ b ∈ right, on x b = false) ∧ b? = none) := by
    intro x
    split
    · rename_i hnil
      have hno : ∀ b ∈ right, on x b = false := fun b hb ↦ by
        simpa using List.filter_eq_nil_iff.1 hnil b hb
      rw [List.mem_singleton, Prod.mk.injEq]
      refine and_congr_right fun _ ↦ ⟨fun h ↦ Or.inr ⟨hno, h⟩, ?_⟩
      rintro (⟨b, hb, hon, -⟩ | ⟨-, h⟩)
      · rw [hno b hb] at hon
        cases hon
      · exact h
    · rename_i hne
      obtain ⟨b, hmatch⟩ := List.exists_mem_of_ne_nil _ hne
      obtain ⟨hb, hon⟩ := List.mem_filter.1 hmatch
      simp only [List.mem_map, List.mem_filter, Prod.mk.injEq]
      constructor
      · rintro ⟨b', ⟨hb', hon'⟩, rfl, rfl⟩
        exact ⟨rfl, Or.inl ⟨b', hb', hon', rfl⟩⟩
      · rintro ⟨rfl, ⟨b', hb', hon', rfl⟩ | ⟨hno, -⟩⟩
        · exact ⟨b', ⟨hb', hon'⟩, rfl, rfl⟩
        · rw [hno b hb] at hon
          cases hon
  rw [leftJoin, List.mem_flatMap]
  simp only [hrow]
  constructor
  · rintro ⟨x, hx, rfl, h⟩
    exact ⟨hx, h⟩
  · rintro ⟨ha, h⟩
    exact ⟨a, ha, rfl, h⟩

/-- **What a recorded join keeps and adds**: a row of it is a left row in which a match was
recorded, or that there is none. -/
theorem forall_mem_leftJoinWith {on : α → β → Bool} {set : α → Option β → α} {left : List α}
    {right : List β} {P Q : α → Prop} (hleft : ∀ a ∈ left, P a)
    (hmatch : ∀ a, P a → ∀ b ∈ right, on a b = true → Q (set a (some b)))
    (hnone : ∀ a, P a → (∀ b ∈ right, on a b = false) → Q (set a none)) :
    ∀ x ∈ leftJoinWith on set left right, Q x := by
  intro x hx
  obtain ⟨⟨a, b?⟩, hpair, rfl⟩ := List.mem_map.1 hx
  obtain ⟨ha, ⟨b, hb, hon, rfl⟩ | ⟨hno, rfl⟩⟩ := mem_leftJoin.1 hpair
  · exact hmatch a (hleft a ha) b hb hon
  · exact hnone a (hleft a ha) hno

/-- A recorded join that adds nothing to what is known of the left rows. -/
theorem forall_mem_leftJoinWith_of_set {on : α → β → Bool} {set : α → Option β → α} {left : List α}
    {right : List β} {P : α → Prop} (hleft : ∀ a ∈ left, P a) (hset : ∀ a b?, P a → P (set a b?)) :
    ∀ x ∈ leftJoinWith on set left right, P x :=
  forall_mem_leftJoinWith hleft (fun a ha b _ _ ↦ hset a (some b) ha) fun a ha _ ↦ hset a none ha

/-! ### Joins that match at most one row -/

/-- **A left join that matches at most one row is a map.** -/
theorem leftJoin_eq_map {on : α → β → Bool} {left : List α} {right : List β}
    (h : ∀ a ∈ left, (right.filter (on a)).length ≤ 1) :
    leftJoin on left right = left.map fun a ↦ (a, right.find? (on a)) := by
  rw [leftJoin, ← List.flatMap_singleton' (left.map _), List.flatMap_map]
  refine List.flatMap_congr fun a ha ↦ ?_
  have hle := h a ha
  rw [← List.head?_filter]
  match hm : right.filter (on a) with
  | [] => rfl
  | [b] => rfl
  | b :: c :: rest => simp [hm] at hle

theorem leftJoinWith_eq_map {on : α → β → Bool} {set : α → Option β → α} {left : List α}
    {right : List β} (h : ∀ a ∈ left, (right.filter (on a)).length ≤ 1) :
    leftJoinWith on set left right = left.map fun a ↦ set a (right.find? (on a)) := by
  rw [leftJoinWith, leftJoin_eq_map h, List.map_map]
  rfl

/-- An outer join loses no left row. -/
theorem leftJoinWith_eq_nil_iff {on : α → β → Bool} {set : α → Option β → α} {left : List α}
    {right : List β} : leftJoinWith on set left right = [] ↔ left = [] := by
  rw [leftJoinWith, List.map_eq_nil_iff, leftJoin, List.flatMap_eq_nil_iff]
  refine ⟨fun h ↦ List.eq_nil_iff_forall_not_mem.2 fun a ha ↦ ?_, fun h ↦ by simp [h]⟩
  have hnil := h a ha
  split at hnil
  · cases hnil
  · rename_i hne
    exact hne (List.map_eq_nil_iff.1 hnil)

/-- A key condition matches at most one row of a table with distinct keys. -/
theorem length_filter_eq_le_one [DecidableEq κ] {key : β → κ} {right : List β}
    (hkeys : (right.map key).Nodup) (k : κ) :
    (right.filter fun b ↦ k = key b).length ≤ 1 := by
  have hcount := List.nodup_iff_count_le_one.1 hkeys k
  rw [List.count, List.countP_map, List.countP_eq_length_filter] at hcount
  convert hcount using 3
  ext b
  rw [Function.comp_apply, beq_eq_decide, decide_eq_decide]
  exact eq_comm

/-- With distinct keys, one row has the key of a given row. -/
theorem filter_key_eq_singleton [DecidableEq κ] {key : β → κ} {rows : List β}
    (hkeys : (rows.map key).Nodup) {x : β} (hx : x ∈ rows) :
    (rows.filter fun y ↦ key y = key x) = [x] := by
  have hmem : x ∈ rows.filter fun y ↦ key y = key x := List.mem_filter.2 ⟨hx, by simp⟩
  have hcond : (fun y ↦ decide (key x = key y)) = fun y ↦ decide (key y = key x) :=
    funext fun y ↦ by rw [decide_eq_decide]; exact eq_comm
  have hle := length_filter_eq_le_one hkeys (key x)
  rw [hcond] at hle
  match hlist : rows.filter fun y ↦ key y = key x with
  | [] => rw [hlist] at hmem; cases hmem
  | [y] => rw [hlist, List.mem_singleton] at hmem; rw [hmem]
  | _ :: _ :: _ => rw [hlist] at hle; simp at hle

/-! ### Duplicate removal -/

section DropDuplicates

variable [DecidableEq κ] {key : α → κ} {rows : List α}

@[simp] theorem dropDuplicatesOn_cons (x : α) (rest : List α) :
    dropDuplicatesOn key (x :: rest) =
      x :: (dropDuplicatesOn key rest).filter fun y ↦ key y ≠ key x := rfl

theorem dropDuplicatesOn_sublist (key : α → κ) (rows : List α) :
    (dropDuplicatesOn key rows).Sublist rows := by
  induction rows with
  | nil => exact List.Sublist.refl _
  | cons x rest ih => exact (List.filter_sublist.trans ih).cons_cons x

theorem mem_of_mem_dropDuplicatesOn {x : α} (hx : x ∈ dropDuplicatesOn key rows) : x ∈ rows :=
  (dropDuplicatesOn_sublist key rows).subset hx

/-- The rows left have distinct keys. -/
theorem nodup_map_dropDuplicatesOn (key : α → κ) (rows : List α) :
    ((dropDuplicatesOn key rows).map key).Nodup := by
  induction rows with
  | nil => exact List.nodup_nil
  | cons x rest ih =>
    rw [dropDuplicatesOn_cons, List.map_cons, List.nodup_cons]
    refine ⟨?_, ih.sublist (List.filter_sublist.map key)⟩
    rw [List.mem_map]
    rintro ⟨y, hy, hkey⟩
    simpa [hkey] using (List.mem_filter.1 hy).2

/-- Every key of the table is the key of a row left. -/
theorem exists_mem_dropDuplicatesOn (key : α → κ) {x : α} (hx : x ∈ rows) :
    ∃ y ∈ dropDuplicatesOn key rows, key y = key x := by
  induction rows with
  | nil => cases hx
  | cons z rest ih =>
    by_cases hz : key x = key z
    · exact ⟨z, List.mem_cons_self, hz.symm⟩
    · rcases List.mem_cons.1 hx with rfl | hx
      · exact absurd rfl hz
      · obtain ⟨y, hy, hkey⟩ := ih hx
        refine ⟨y, List.mem_cons_of_mem _ (List.mem_filter.2 ⟨hy, ?_⟩), hkey⟩
        simpa [hkey] using hz

/-- Where rows that share a key are copies of one another, no row is lost. -/
theorem mem_dropDuplicatesOn_iff (hcopies : ∀ x ∈ rows, ∀ y ∈ rows, key x = key y → x = y) {x : α} :
    x ∈ dropDuplicatesOn key rows ↔ x ∈ rows := by
  refine ⟨mem_of_mem_dropDuplicatesOn, fun hx ↦ ?_⟩
  obtain ⟨y, hy, hkey⟩ := exists_mem_dropDuplicatesOn key hx
  rwa [hcopies y (mem_of_mem_dropDuplicatesOn hy) x hx hkey] at hy

end DropDuplicates

end Relational
