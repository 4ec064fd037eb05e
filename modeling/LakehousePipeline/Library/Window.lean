import Mathlib.Data.List.Sort
import Mathlib.Data.List.Dedup
import Mathlib.Data.List.Induction
import Mathlib.Data.List.Perm.Basic

/-!
# Window functions over ordered partitions

A SQL window function sees a row together with the rows before and after it in the sorted
partition. `overRows` makes that reading the definition: the row function receives the two sides as
lists, so `lag`, `lead`, a running count, a running "last value ignoring nulls" and a
whole-partition sum are all ordinary list functions of the same three arguments, and no frame
arithmetic is left.

Tables are lists compared up to permutation: the order in which partitions come out carries no
meaning, and `flatten_partitionBy_perm` says that partitioning loses and duplicates nothing.

## Reasoning about a window

* Over a sorted partition: a window function that does not look ahead extends row by row
  (`overRows_concat`), one that looks at the row alone is a map (`overFrom_of_map`), and every
  output row comes from one split of the partition (`mem_overRows`).
* Over a table: the output rows of one key come from the partition of the key
  (`filter_overPartition`), so statements about one entity need only one partition, and a column
  that is copied from the row has the values it had (`map_overPartition_perm`).
* For `row_number() = 1`: there is one first row per key (`nodup_map_firstPerPartition`), and it
  comes before all others of the key (`find?_firstPerPartition`).

A sort is only as definite as its order: `insertionSort_eq_of_perm` asks that rows which tie are
equal, and then the sorted partition does not depend on how the rows come in.
-/

namespace Window

variable {α β γ κ : Type*}

/-! ### Rows of a sorted partition -/

/-- The rows of a partition in order, each mapped together with what precedes it (`before`) and
what follows it. -/
def overFrom (f : List α → α → List α → β) : List α → List α → List β
  | _, [] => []
  | before, x :: after => f before x after :: overFrom f (before ++ [x]) after

/-- A window function over one sorted partition. -/
def overRows (f : List α → α → List α → β) (rows : List α) : List β :=
  overFrom f [] rows

/-- The last value of `g` that is not null. -/
def lastNonNull (g : α → Option β) (rows : List α) : Option β :=
  (rows.filterMap g).getLast?

@[simp] theorem overFrom_nil (f : List α → α → List α → β) (before : List α) :
    overFrom f before [] = [] := rfl

@[simp] theorem overFrom_cons (f : List α → α → List α → β) (before : List α) (x : α)
    (after : List α) :
    overFrom f before (x :: after) = f before x after :: overFrom f (before ++ [x]) after := rfl

@[simp] theorem overRows_nil (f : List α → α → List α → β) : overRows f [] = [] := rfl

/-- A window function has one output row per input row. -/
theorem length_overFrom (f : List α → α → List α → β) (before rows : List α) :
    (overFrom f before rows).length = rows.length := by
  induction rows generalizing before with
  | nil => rfl
  | cons x rows ih => rw [overFrom_cons, List.length_cons, ih, List.length_cons]

@[simp] theorem length_overRows (f : List α → α → List α → β) (rows : List α) :
    (overRows f rows).length = rows.length :=
  length_overFrom f [] rows

/-- A partition that is read in two parts: the second part sees the first before it, and the first
sees the second after it. -/
theorem overFrom_append (f : List α → α → List α → β) (before xs ys : List α) :
    overFrom f before (xs ++ ys) =
      overFrom (fun b x a ↦ f b x (a ++ ys)) before xs ++ overFrom f (before ++ xs) ys := by
  induction xs generalizing before with
  | nil => simp
  | cons x xs ih =>
    rw [List.cons_append, overFrom_cons, overFrom_cons, ih, List.append_assoc, List.cons_append,
      List.cons_append, List.nil_append]

/-- A window function that does not look ahead is computed row by row. -/
theorem overRows_concat (g : List α → α → β) (xs : List α) (x : α) :
    overRows (fun b y _ ↦ g b y) (xs ++ [x]) = overRows (fun b y _ ↦ g b y) xs ++ [g xs x] := by
  rw [overRows, overFrom_append]
  rfl

/-- A column of the output is a window function. -/
theorem map_overFrom (g : β → γ) (f : List α → α → List α → β) (before rows : List α) :
    (overFrom f before rows).map g = overFrom (fun b x a ↦ g (f b x a)) before rows := by
  induction rows generalizing before with
  | nil => rfl
  | cons x rows ih => rw [overFrom_cons, List.map_cons, ih, overFrom_cons]

/-- A window function that looks at the row alone is a map. -/
theorem overFrom_of_map (g : α → β) (before rows : List α) :
    overFrom (fun _ x _ ↦ g x) before rows = rows.map g := by
  induction rows generalizing before with
  | nil => rfl
  | cons x rows ih => rw [overFrom_cons, ih, List.map_cons]

/-- Every output row comes from one split of the partition. -/
theorem mem_overFrom {f : List α → α → List α → β} {before rows : List α} {y : β} :
    y ∈ overFrom f before rows ↔
      ∃ pre x post, rows = pre ++ x :: post ∧ y = f (before ++ pre) x post := by
  induction rows generalizing before with
  | nil => simp
  | cons x rows ih =>
    rw [overFrom_cons, List.mem_cons, ih]
    constructor
    · rintro (rfl | ⟨pre, z, post, rfl, rfl⟩)
      · exact ⟨[], x, rows, rfl, by simp⟩
      · exact ⟨x :: pre, z, post, rfl, by simp⟩
    · rintro ⟨pre, z, post, hsplit, rfl⟩
      cases pre with
      | nil =>
        obtain ⟨rfl, rfl⟩ := List.cons.inj hsplit
        exact Or.inl (by simp)
      | cons w pre =>
        obtain ⟨rfl, rfl⟩ := List.cons.inj hsplit
        exact Or.inr ⟨pre, z, post, rfl, by simp⟩

/-- Every output row comes from one split of the partition. -/
theorem mem_overRows {f : List α → α → List α → β} {rows : List α} {y : β} :
    y ∈ overRows f rows ↔ ∃ pre x post, rows = pre ++ x :: post ∧ y = f pre x post := by
  rw [overRows, mem_overFrom]
  simp only [List.nil_append]

/-- A window function matters on the splits of the partition only. -/
theorem overRows_congr {f g : List α → α → List α → β} {rows : List α}
    (h : ∀ before x after, rows = before ++ x :: after → f before x after = g before x after) :
    overRows f rows = overRows g rows := by
  have hfrom : ∀ after before, (∀ pre x post, after = pre ++ x :: post →
      f (before ++ pre) x post = g (before ++ pre) x post) →
        overFrom f before after = overFrom g before after := by
    intro after
    induction after with
    | nil => exact fun _ _ ↦ rfl
    | cons x after ih =>
      intro before hsplit
      have hhead := hsplit [] x after rfl
      rw [List.append_nil] at hhead
      rw [overFrom_cons, overFrom_cons, hhead, ih]
      intro pre y post hafter
      rw [List.append_assoc]
      exact hsplit (x :: pre) y post (by rw [hafter, List.cons_append])
  exact hfrom rows [] fun pre x post hrows ↦ by simpa using h pre x post hrows

/-- Looking up the output of one row, where no earlier row's output is taken for it. -/
theorem find?_overRows {f : List α → α → List α → β} {p : β → Bool} {pre post : List α} {x : α}
    (hpre : ∀ y ∈ pre, ∀ b a, p (f b y a) = false) (hx : p (f pre x post) = true) :
    (overRows f (pre ++ x :: post)).find? p = some (f pre x post) := by
  have hnone : (overFrom (fun b y a ↦ f b y (a ++ x :: post)) [] pre).find? p = none := by
    rw [List.find?_eq_none]
    intro z hz
    obtain ⟨init, y, tail, rfl, rfl⟩ := mem_overFrom.1 hz
    simp [hpre y (by simp)]
  rw [overRows, overFrom_append, List.find?_append, hnone, Option.none_or, List.nil_append,
    overFrom_cons, List.find?_cons_of_pos hx]

/-- The last value of a mapped partition. -/
theorem lastNonNull_map (g : β → Option γ) (h : α → β) (rows : List α) :
    lastNonNull g (rows.map h) = lastNonNull (fun x ↦ g (h x)) rows := by
  rw [lastNonNull, List.filterMap_map]
  rfl

/-- There is none if all values are null. -/
theorem lastNonNull_eq_none_iff {g : α → Option β} {rows : List α} :
    lastNonNull g rows = none ↔ ∀ x ∈ rows, g x = none := by
  rw [lastNonNull, List.getLast?_eq_none_iff, List.filterMap_eq_nil_iff]

/-- After the last value that is not null all are. -/
theorem lastNonNull_eq_some {g : α → Option β} {rows : List α} {v : β}
    (h : lastNonNull g rows = some v) :
    ∃ pre x post, rows = pre ++ x :: post ∧ g x = some v ∧ ∀ y ∈ post, g y = none := by
  induction rows with
  | nil => cases h
  | cons x rows ih =>
    by_cases hrest : lastNonNull g rows = none
    · refine ⟨[], x, rows, rfl, ?_, lastNonNull_eq_none_iff.1 hrest⟩
      have hnil : rows.filterMap g = [] :=
        List.filterMap_eq_nil_iff.2 (lastNonNull_eq_none_iff.1 hrest)
      cases hx : g x with
      | none => simp [lastNonNull, hx, hnil] at h
      | some w => simpa [lastNonNull, hx, hnil] using h
    · have hlast : lastNonNull g (x :: rows) = lastNonNull g rows := by
        obtain ⟨w, hw⟩ := Option.ne_none_iff_exists'.1 hrest
        unfold lastNonNull at hw ⊢
        cases hx : g x with
        | none => rw [List.filterMap_cons_none hx]
        | some u =>
          rw [List.filterMap_cons_some hx, List.getLast?_cons, hw]
          rfl
      obtain ⟨pre, z, post, rfl, hz, hpost⟩ := ih (hlast ▸ h)
      exact ⟨x :: pre, z, post, rfl, hz, hpost⟩

/-- **A check against the row ahead checks all pairs**, if what it checks is transitive on the
rows. -/
theorem pairwise_of_lag {R : α → α → Prop} {rows : List α}
    (htrans : ∀ a ∈ rows, ∀ b ∈ rows, ∀ c ∈ rows, R a b → R b c → R a c)
    (hlag : ∀ before x after, rows = before ++ x :: after →
      ∀ previous, before.getLast? = some previous → R previous x) : rows.Pairwise R := by
  induction rows using List.reverseRecOn with
  | nil => exact List.Pairwise.nil
  | append_singleton init x ih =>
    have hinit : init.Pairwise R := by
      refine ih (fun a ha b hb c hc ↦ htrans a (by simp [ha]) b (by simp [hb]) c (by simp [hc])) ?_
      intro before y after hsplit
      exact hlag before y (after ++ [x]) (by rw [hsplit, List.append_assoc, List.cons_append])
    rw [List.pairwise_append]
    refine ⟨hinit, List.pairwise_singleton _ _, fun a ha y hy ↦ ?_⟩
    obtain rfl := List.mem_singleton.1 hy
    rcases List.eq_nil_or_concat init with rfl | ⟨front, previous, rfl⟩
    · cases ha
    · rw [List.concat_eq_append] at ha hinit
      have hprevious : R previous y :=
        hlag (front.concat previous) y [] rfl previous (by simp)
      rcases List.mem_append.1 ha with hfront | hlast
      · -- what comes before the row ahead reaches it through that row
        have hahead := (List.pairwise_append.1 hinit).2.2 a hfront previous List.mem_cons_self
        exact htrans a (by simp [hfront]) previous (by simp) y (by simp) hahead hprevious
      · rw [List.mem_singleton.1 hlast]
        exact hprevious

/-- The sorted partition does not depend on the order the rows come in, where rows that tie are
equal. -/
theorem insertionSort_eq_of_perm (r : α → α → Prop) [DecidableRel r] [Std.Total r] [IsTrans α r]
    {xs ys : List α} (hperm : xs.Perm ys) (hties : ∀ a ∈ xs, ∀ b ∈ xs, r a b → r b a → a = b) :
    xs.insertionSort r = ys.insertionSort r := by
  refine List.Perm.eq_of_pairwise (fun a b ha hb ↦ ?_) (List.pairwise_insertionSort r xs)
    (List.pairwise_insertionSort r ys)
    (((List.perm_insertionSort r xs).trans hperm).trans (List.perm_insertionSort r ys).symm)
  exact hties a ((List.mem_insertionSort r).1 ha) b
    (hperm.mem_iff.2 ((List.mem_insertionSort r).1 hb))

/-- A row in front counts only if all others are null. -/
theorem lastNonNull_cons (g : α → Option β) (x : α) (rows : List α) :
    lastNonNull g (x :: rows) = (lastNonNull g rows).or (g x) := by
  rcases hx : g x with - | v
  · rw [lastNonNull, List.filterMap_cons_none hx, Option.or_none]
    rfl
  · rw [lastNonNull, List.filterMap_cons_some hx, List.getLast?_cons]
    show some ((lastNonNull g rows).getD v) = _
    cases lastNonNull g rows <;> rfl

/-! ### Partitions -/

variable [DecidableEq κ]

/-- The partitions of a table by a key, one per key that occurs. -/
def partitionBy (key : α → κ) (rows : List α) : List (List α) :=
  (rows.map key).dedup.map fun k ↦ rows.filter fun x ↦ key x = k

/-- A window function over every partition of a table, each sorted by `r`. -/
def overPartition (key : α → κ) (r : α → α → Prop) [DecidableRel r]
    (f : List α → α → List α → β) (rows : List α) : List β :=
  (partitionBy key rows).flatMap fun p ↦ overRows f (p.insertionSort r)

/-- The rows that come first in their partition: `row_number() = 1`. -/
def firstPerPartition (key : α → κ) (r : α → α → Prop) [DecidableRel r] (rows : List α) : List α :=
  (partitionBy key rows).flatMap fun p ↦ (p.insertionSort r).head?.toList

@[simp] theorem partitionBy_nil (key : α → κ) : partitionBy key ([] : List α) = [] := rfl

/-- A partition has all rows of the key of one of them. -/
theorem mem_partitionBy {key : α → κ} {rows p : List α} :
    p ∈ partitionBy key rows ↔ ∃ x ∈ rows, p = rows.filter fun y ↦ key y = key x := by
  simp only [partitionBy, List.mem_map, List.mem_dedup]
  constructor
  · rintro ⟨k, ⟨x, hx, rfl⟩, rfl⟩
    exact ⟨x, hx, rfl⟩
  · rintro ⟨x, hx, rfl⟩
    exact ⟨key x, ⟨x, hx, rfl⟩, rfl⟩

/-- A table with one key is its own only partition. -/
theorem partitionBy_of_const {key : α → κ} {rows : List α} {k : κ} (hne : rows ≠ [])
    (h : ∀ x ∈ rows, key x = k) : partitionBy key rows = [rows] := by
  have hmap : rows.map key = List.replicate rows.length k := by
    rw [List.eq_replicate_iff]
    refine ⟨List.length_map .., fun b hb ↦ ?_⟩
    obtain ⟨x, hx, rfl⟩ := List.mem_map.1 hb
    exact h x hx
  have hlen : rows.length ≠ 0 := fun h0 ↦ hne (List.length_eq_zero_iff.1 h0)
  have hfilter : (rows.filter fun x ↦ key x = k) = rows :=
    List.filter_eq_self.2 fun x hx ↦ by simpa using h x hx
  rw [partitionBy, hmap, List.replicate_dedup hlen, List.map_singleton, hfilter]

/-- Key by key: what is computed from the rows of one key. -/
theorem filter_flatMap_filter (key : α → κ) (g : β → κ) (rows : List α) {h : List α → List β}
    (hg : ∀ k, ∀ y ∈ h (rows.filter fun x ↦ key x = k), g y = k) {ks : List κ} (hks : ks.Nodup)
    (k : κ) : ((ks.flatMap fun k' ↦ h (rows.filter fun x ↦ key x = k')).filter fun y ↦ g y = k) =
      if k ∈ ks then h (rows.filter fun x ↦ key x = k) else [] := by
  induction ks with
  | nil => simp
  | cons k' ks ih =>
    rw [List.nodup_cons] at hks
    rw [List.flatMap_cons, List.filter_append, ih hks.2]
    rcases eq_or_ne k' k with rfl | hk
    · rw [List.filter_eq_self.2 fun y hy ↦ by simpa using hg k' y hy]
      simp [hks.1]
    · rw [List.filter_eq_nil_iff.2 fun y hy ↦ by simpa [hg k' y hy] using hk]
      simp [hk.symm]

/-- **Partition by partition**: what is computed from the partition of one key. -/
theorem filter_flatMap_partitionBy (key : α → κ) (g : β → κ) (rows : List α)
    {h : List α → List β} (hnil : h [] = [])
    (hg : ∀ k, ∀ y ∈ h (rows.filter fun x ↦ key x = k), g y = k) (k : κ) :
    (((partitionBy key rows).flatMap h).filter fun y ↦ g y = k) =
      h (rows.filter fun x ↦ key x = k) := by
  rw [partitionBy, List.flatMap_map, filter_flatMap_filter key g rows hg (List.nodup_dedup _)]
  split
  · rfl
  · rename_i hnot
    have hempty : (rows.filter fun x ↦ key x = k) = [] :=
      List.filter_eq_nil_iff.2 fun x hx hk ↦
        hnot (List.mem_dedup.2 (List.mem_map.2 ⟨x, hx, by simpa using hk⟩))
    rw [hempty, hnil]

/-- Tables that agree key by key have the same rows. -/
theorem perm_of_filter_perm (key : α → κ) {xs ys : List α}
    (h : ∀ k, (xs.filter fun x ↦ key x = k).Perm (ys.filter fun y ↦ key y = k)) : xs.Perm ys := by
  classical
  rw [List.perm_iff_count]
  intro a
  have hcount : ∀ zs : List α, (zs.filter fun z ↦ key z = key a).count a = zs.count a :=
    fun zs ↦ List.count_filter (by simp)
  rw [← hcount xs, ← hcount ys]
  exact (h (key a)).count_eq a

/-- **Dividing by key loses and duplicates nothing**, if each row has one of the keys. -/
theorem flatMap_filter_perm (key : α → κ) (rows : List α) {ks : List κ} (hks : ks.Nodup)
    (h : ∀ x ∈ rows, key x ∈ ks) :
    (ks.flatMap fun k ↦ rows.filter fun x ↦ key x = k).Perm rows := by
  refine perm_of_filter_perm key fun k ↦ List.Perm.of_eq ?_
  have hgroup := filter_flatMap_filter key key rows (h := id)
    (fun k y hy ↦ by simpa using (List.mem_filter.1 hy).2) hks k
  refine hgroup.trans
    (ite_eq_left_iff.2 fun hnot ↦ (List.filter_eq_nil_iff.2 fun x hx hk ↦ ?_).symm)
  exact hnot (of_decide_eq_true hk ▸ h x hx)

/-- **Partitioning loses and duplicates nothing.** -/
theorem flatten_partitionBy_perm (key : α → κ) (rows : List α) :
    (partitionBy key rows).flatten.Perm rows :=
  flatMap_filter_perm key rows (List.nodup_dedup _) fun _ hx ↦
    List.mem_dedup.2 (List.mem_map_of_mem hx)

/-- A relation that holds between rows of different keys is checked key by key. -/
theorem pairwise_iff_forall_filter (key : α → κ) {R : α → α → Prop} {xs : List α}
    (h : ∀ x ∈ xs, ∀ y ∈ xs, key x ≠ key y → R x y) :
    xs.Pairwise R ↔ ∀ k, (xs.filter fun x ↦ key x = k).Pairwise R := by
  refine ⟨fun hall k ↦ hall.sublist List.filter_sublist, fun hkeys ↦ ?_⟩
  induction xs with
  | nil => exact List.Pairwise.nil
  | cons x xs ih =>
    have hrest : xs.Pairwise R := by
      refine ih (fun y hy z hz ↦ h y (List.mem_cons_of_mem _ hy) z (List.mem_cons_of_mem _ hz)) ?_
      intro k
      exact (hkeys k).sublist ((List.sublist_cons_self x xs).filter _)
    refine List.pairwise_cons.2 ⟨fun y hy ↦ ?_, hrest⟩
    by_cases hkey : key x = key y
    · have hpair := hkeys (key x)
      rw [List.filter_cons_of_pos (by simp), List.pairwise_cons] at hpair
      exact hpair.1 y (List.mem_filter.2 ⟨hy, by simp [hkey]⟩)
    · exact h x List.mem_cons_self y (List.mem_cons_of_mem _ hy) hkey

section OverPartition

variable (key : α → κ) (r : α → α → Prop) [DecidableRel r] {f : List α → α → List α → β}

/-- Every output row of a window function comes from a row and the rows around it. -/
theorem mem_overPartition {rows : List α} {y : β} :
    y ∈ overPartition key r f rows ↔ ∃ x ∈ rows, ∃ before x' after,
      (rows.filter fun z ↦ key z = key x).insertionSort r = before ++ x' :: after ∧
        y = f before x' after := by
  rw [overPartition, List.mem_flatMap]
  constructor
  · rintro ⟨p, hp, hy⟩
    obtain ⟨x, hx, rfl⟩ := mem_partitionBy.1 hp
    exact ⟨x, hx, mem_overRows.1 hy⟩
  · rintro ⟨x, hx, hy⟩
    exact ⟨_, mem_partitionBy.2 ⟨x, hx, rfl⟩, mem_overRows.2 hy⟩

/-- The output rows of the partition of one key. -/
theorem filter_overPartition {g : β → κ} (hg : ∀ b x a, g (f b x a) = key x) (rows : List α)
    (k : κ) :
    ((overPartition key r f rows).filter fun y ↦ g y = k) =
      overRows f ((rows.filter fun x ↦ key x = k).insertionSort r) := by
  refine filter_flatMap_partitionBy key g rows
    (h := fun p ↦ overRows f (p.insertionSort r)) rfl ?_ k
  intro k' y hy
  obtain ⟨before, x, after, hsort, rfl⟩ := mem_overRows.1 hy
  have hx : x ∈ (rows.filter fun x ↦ key x = k').insertionSort r := by
    rw [hsort]
    exact List.mem_append_right _ List.mem_cons_self
  rw [hg]
  simpa using (List.mem_filter.1 ((List.mem_insertionSort r).1 hx)).2

/-- **One output row per input row**: a column that is copied from the row itself. -/
theorem map_overPartition_perm {g : β → γ} {h : α → γ} (hg : ∀ b x a, g (f b x a) = h x)
    (rows : List α) : ((overPartition key r f rows).map g).Perm (rows.map h) := by
  have hpart : ∀ p : List α, ((overRows f (p.insertionSort r)).map g).Perm (p.map h) := by
    intro p
    rw [overRows, map_overFrom]
    simp only [hg]
    rw [overFrom_of_map]
    exact (List.perm_insertionSort r p).map h
  rw [overPartition, List.map_flatMap]
  refine List.Perm.trans ?_ ((flatten_partitionBy_perm key rows).map h)
  rw [List.map_flatten, ← List.flatMap_def]
  exact List.Perm.flatMap_left _ fun p _ ↦ hpart p

end OverPartition

/-! ### The first row of each partition -/

section First

variable (key : α → κ) (r : α → α → Prop) [DecidableRel r]

/-- A first row is a row of the table. -/
theorem mem_of_mem_firstPerPartition {rows : List α} {x : α}
    (h : x ∈ firstPerPartition key r rows) : x ∈ rows := by
  obtain ⟨p, hp, hx⟩ := List.mem_flatMap.1 h
  obtain ⟨y, -, rfl⟩ := mem_partitionBy.1 hp
  have hmem := List.mem_of_mem_head? (Option.mem_toList.1 hx)
  exact (List.mem_filter.1 ((List.mem_insertionSort r).1 hmem)).1

/-- The first row of the partition of one key. -/
theorem filter_firstPerPartition (rows : List α) (k : κ) :
    ((firstPerPartition key r rows).filter fun x ↦ key x = k) =
      ((rows.filter fun x ↦ key x = k).insertionSort r).head?.toList := by
  refine filter_flatMap_partitionBy key key rows
    (h := fun p ↦ (p.insertionSort r).head?.toList) rfl ?_ k
  intro k' x hx
  have hmem := List.mem_of_mem_head? (Option.mem_toList.1 hx)
  simpa using (List.mem_filter.1 ((List.mem_insertionSort r).1 hmem)).2

/-- There is one first row per key. -/
theorem nodup_map_firstPerPartition (rows : List α) :
    ((firstPerPartition key r rows).map key).Nodup := by
  rw [List.nodup_iff_count_le_one]
  intro k
  have hlen : ((firstPerPartition key r rows).filter fun x ↦ key x = k).length ≤ 1 := by
    rw [filter_firstPerPartition]
    cases ((rows.filter fun x ↦ key x = k).insertionSort r).head? <;> simp
  rw [List.count, List.countP_map, List.countP_eq_length_filter]
  refine le_of_eq_of_le (congrArg List.length (List.filter_congr fun x _ ↦ ?_)) hlen
  rw [Function.comp_apply, beq_eq_decide]

/-- The first row of a key depends on the rows of that key alone. -/
theorem find?_firstPerPartition_eq_head? (rows : List α) (k : κ) :
    (firstPerPartition key r rows).find? (fun x ↦ key x = k) =
      ((rows.filter fun x ↦ key x = k).insertionSort r).head? := by
  rw [← List.head?_filter, filter_firstPerPartition]
  cases ((rows.filter fun x ↦ key x = k).insertionSort r).head? <;> rfl

/-- **The first row of a key** comes before all rows of the key. -/
theorem find?_firstPerPartition [Std.Total r] [IsTrans α r] (rows : List α) (k : κ) :
    ((firstPerPartition key r rows).find? (fun x ↦ key x = k) = none ∧ ∀ x ∈ rows, key x ≠ k) ∨
      ∃ x ∈ rows, key x = k ∧ (∀ y ∈ rows, key y = k → r x y ∨ y = x) ∧
        (firstPerPartition key r rows).find? (fun x ↦ key x = k) = some x := by
  rw [← List.head?_filter, filter_firstPerPartition]
  have hsorted := List.pairwise_insertionSort r (rows.filter fun x ↦ key x = k)
  have hmem : ∀ y, y ∈ (rows.filter fun x ↦ key x = k).insertionSort r ↔ y ∈ rows ∧ key y = k :=
    fun y ↦ by rw [List.mem_insertionSort, List.mem_filter, decide_eq_true_iff]
  cases hsort : (rows.filter fun x ↦ key x = k).insertionSort r with
  | nil =>
    refine Or.inl ⟨rfl, fun x hx hk ↦ ?_⟩
    have hin := (hmem x).2 ⟨hx, hk⟩
    rw [hsort] at hin
    exact List.not_mem_nil hin
  | cons x later =>
    rw [hsort, List.pairwise_cons] at hsorted
    obtain ⟨hx, hk⟩ := (hmem x).1 (by rw [hsort]; exact List.mem_cons_self)
    refine Or.inr ⟨x, hx, hk, fun y hy hyk ↦ ?_, rfl⟩
    have hin := (hmem y).2 ⟨hy, hyk⟩
    rw [hsort, List.mem_cons] at hin
    rcases hin with rfl | hin
    · exact Or.inr rfl
    · exact Or.inl (hsorted.1 y hin)

end First

end Window
