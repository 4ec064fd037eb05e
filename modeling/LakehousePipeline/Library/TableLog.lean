import Mathlib.Data.List.Infix

/-!
# Versioned tables

A table with time travel is the list of its rows after each commit, and a version is a place in that
list. A commit extends the list, so what a reader sees at a version it has pinned never changes
(`rowsAt_of_extends`); only the latest version moves. The same goes for the latest version of a kind
of commits, which is found by going back from the latest one (`lastVersionWhere`).
-/

namespace TableLog

variable {R : Type*} {log log' : List (List R)}

/-- The rows at the latest version, none before the first commit. -/
def latestRows (log : List (List R)) : List R :=
  log.getLast?.getD []

/-- The number of the latest version. -/
def latestVersion (log : List (List R)) : ℕ :=
  log.length - 1

/-- The rows at a version. -/
def rowsAt (log : List (List R)) (version : ℕ) : List R :=
  log[version]?.getD []

/-- One more version. -/
def commit (log : List (List R)) (rows : List R) : List (List R) :=
  log ++ [rows]

@[simp] theorem latestRows_commit (log : List (List R)) (rows : List R) :
    latestRows (commit log rows) = rows := by
  rw [latestRows, commit, List.getLast?_concat]
  rfl

@[simp] theorem latestVersion_commit (log : List (List R)) (rows : List R) :
    latestVersion (commit log rows) = log.length := by
  rw [latestVersion, commit, List.length_append]
  rfl

@[simp] theorem length_commit (log : List (List R)) (rows : List R) :
    (commit log rows).length = log.length + 1 := by
  rw [commit, List.length_append]
  rfl

theorem prefix_commit (log : List (List R)) (rows : List R) : log <+: commit log rows :=
  List.prefix_append _ _

/-- The latest version has the latest rows. -/
theorem rowsAt_latestVersion (log : List (List R)) :
    rowsAt log (latestVersion log) = latestRows log := by
  rw [rowsAt, latestVersion, latestRows, List.getLast?_eq_getElem?]

@[simp] theorem rowsAt_commit_length (log : List (List R)) (rows : List R) :
    rowsAt (commit log rows) log.length = rows := by
  rw [rowsAt, commit, List.getElem?_concat_length]
  rfl

/-- **A pinned version keeps its rows.** -/
theorem rowsAt_of_extends (h : log <+: log') {version : ℕ} (hv : version < log.length) :
    rowsAt log' version = rowsAt log version := by
  obtain ⟨more, rfl⟩ := h
  rw [rowsAt, rowsAt, List.getElem?_append_left hv]

/-- **The version after a pinned one**, once the latest rows are committed again: it has the pinned
rows if it had them before, or if the pinned version was the latest. -/
theorem rowsAt_succ_commit_perm {version : ℕ} (hv : version < log.length)
    (h : ∀ rows, log[version + 1]? = some rows → rows.Perm (rowsAt log version)) :
    (rowsAt (commit log (latestRows log)) (version + 1)).Perm (rowsAt log version) := by
  rcases Nat.lt_or_ge (version + 1) log.length with hlt | hge
  · rw [rowsAt_of_extends (prefix_commit _ _) hlt]
    have hrows := List.getElem?_eq_getElem hlt
    rw [rowsAt, hrows]
    exact h _ hrows
  · have hlast : version = latestVersion log := by
      rw [latestVersion]
      omega
    have hlength : version + 1 = log.length := by omega
    rw [hlength, rowsAt_commit_length, hlast, rowsAt_latestVersion]

/-! ### The latest version of a kind -/

section Kind

variable {α : Type*} (p : α → Bool) {commits commits' : List α}

/-- The number of the latest commit with `p`, or 0. -/
def lastVersionWhere (commits : List α) : ℕ :=
  commits.length - 1 - (commits.reverse.takeWhile fun c ↦ !p c).length

variable {p}

theorem lastVersionWhere_concat_of_pos {c : α} (hc : p c = true) (commits : List α) :
    lastVersionWhere p (commits ++ [c]) = commits.length := by
  rw [lastVersionWhere, List.reverse_concat, List.takeWhile_cons_of_neg (by simp [hc]),
    List.length_append]
  rfl

theorem lastVersionWhere_concat_of_neg {c : α} (hc : p c = false) (commits : List α) :
    lastVersionWhere p (commits ++ [c]) = lastVersionWhere p commits := by
  rw [lastVersionWhere, lastVersionWhere, List.reverse_concat,
    List.takeWhile_cons_of_pos (by simp [hc]), List.length_append, List.length_cons,
    List.length_cons, List.length_nil]
  omega

variable (p) in
theorem lastVersionWhere_le (commits : List α) : lastVersionWhere p commits ≤ commits.length - 1 :=
  Nat.sub_le _ _

/-- **The latest version of a kind only moves forward.** -/
theorem lastVersionWhere_mono (h : commits <+: commits') :
    lastVersionWhere p commits ≤ lastVersionWhere p commits' := by
  obtain ⟨more, rfl⟩ := h
  induction more generalizing commits with
  | nil => rw [List.append_nil]
  | cons c more ih =>
    rw [List.append_cons]
    refine le_trans ?_ ih
    rcases hc : p c with - | -
    · rw [lastVersionWhere_concat_of_neg hc]
    · rw [lastVersionWhere_concat_of_pos hc]
      exact (lastVersionWhere_le p commits).trans (Nat.sub_le _ _)

/-- A narrower kind of commits is behind a wider one. -/
theorem lastVersionWhere_le_of_imp {q : α → Bool} (h : ∀ c, p c = true → q c = true)
    (commits : List α) : lastVersionWhere p commits ≤ lastVersionWhere q commits := by
  induction commits using List.reverseRecOn with
  | nil => exact le_rfl
  | append_singleton commits c ih =>
    rcases hq : q c with - | -
    · have hp : p c = false := Bool.eq_false_iff.2 fun hp ↦ by
        rw [h c hp] at hq
        cases hq
      rw [lastVersionWhere_concat_of_neg hp, lastVersionWhere_concat_of_neg hq]
      exact ih
    · rw [lastVersionWhere_concat_of_pos hq]
      refine (lastVersionWhere_le p _).trans ?_
      rw [List.length_append]
      rfl

/-- No commit of the kind comes after the latest one. -/
theorem le_lastVersionWhere {version : ℕ} {c : α} (hversion : commits[version]? = some c)
    (hc : p c = true) : version ≤ lastVersionWhere p commits := by
  obtain ⟨hlt, hget⟩ := List.getElem?_eq_some_iff.1 hversion
  have htake : commits.take (version + 1) <+: commits := List.take_prefix _ _
  refine le_trans ?_ (lastVersionWhere_mono htake)
  rw [List.take_add_one, hversion, Option.toList_some, lastVersionWhere_concat_of_pos hc,
    List.length_take]
  omega

/-- The latest commit of a kind is of that kind, if there is one. -/
theorem getElem?_lastVersionWhere (h : commits.any p = true) :
    ∃ c, commits[lastVersionWhere p commits]? = some c ∧ p c = true := by
  induction commits using List.reverseRecOn with
  | nil => cases h
  | append_singleton commits c ih =>
    rcases hc : p c with - | -
    · rw [lastVersionWhere_concat_of_neg hc]
      rw [List.any_append, List.any_cons, hc, List.any_nil, Bool.or_false, Bool.or_false] at h
      obtain ⟨found, hfound, hp⟩ := ih h
      obtain ⟨hlt, -⟩ := List.getElem?_eq_some_iff.1 hfound
      exact ⟨found, by rw [List.getElem?_append_left hlt, hfound], hp⟩
    · rw [lastVersionWhere_concat_of_pos hc]
      exact ⟨c, List.getElem?_concat_length, hc⟩

variable (p) in
/-- The number of the latest commit with `p`, if it is among the last `limit`. -/
def recentVersionWhere (limit : ℕ) (commits : List α) : Option ℕ :=
  if (commits.reverse.take limit).any p then some (lastVersionWhere p commits) else none

/-- **What is found among the last commits is the latest of its kind.** -/
theorem recentVersionWhere_spec {limit version : ℕ}
    (h : recentVersionWhere p limit commits = some version) :
    version = lastVersionWhere p commits ∧ ∃ c, commits[version]? = some c ∧ p c = true := by
  obtain ⟨hany, heq⟩ := Option.ite_none_right_eq_some.1 h
  obtain rfl := Option.some.inj heq
  refine ⟨rfl, getElem?_lastVersionWhere ?_⟩
  obtain ⟨c, hc, hp⟩ := List.any_eq_true.1 hany
  exact List.any_eq_true.2 ⟨c, List.mem_reverse.1 (List.mem_of_mem_take hc), hp⟩

theorem recentVersionWhere_concat_of_pos {c : α} (hc : p c = true) (limit : ℕ) (commits : List α) :
    recentVersionWhere p (limit + 1) (commits ++ [c]) = some commits.length := by
  rw [recentVersionWhere, List.reverse_concat, List.take_succ_cons, List.any_cons, hc, Bool.true_or,
    if_pos rfl, lastVersionWhere_concat_of_pos hc]

theorem recentVersionWhere_concat_of_neg {c : α} (hc : p c = false) (limit : ℕ) (commits : List α) :
    recentVersionWhere p (limit + 1) (commits ++ [c]) = recentVersionWhere p limit commits := by
  rw [recentVersionWhere, recentVersionWhere, List.reverse_concat, List.take_succ_cons,
    List.any_cons, hc, Bool.false_or, lastVersionWhere_concat_of_neg hc]

variable (p) in
/-- The last commits, read from the newest one on. -/
theorem find?_take_reverse (limit : ℕ) (commits : List α) :
    ((commits.zipIdx.reverse.take limit).find? fun row ↦ p row.1).map Prod.snd =
      recentVersionWhere p limit commits := by
  induction commits using List.reverseRecOn generalizing limit with
  | nil => rcases limit with - | limit <;> rfl
  | append_singleton commits c ih =>
    rcases limit with - | limit
    · rfl
    · have hread : ((commits ++ [c]).zipIdx.reverse.take (limit + 1)) =
          (c, commits.length) :: commits.zipIdx.reverse.take limit := by
        rw [List.zipIdx_append, List.reverse_append, List.zipIdx_singleton, List.reverse_singleton,
          List.singleton_append, List.take_succ_cons, Nat.zero_add]
      rw [hread]
      rcases hc : p c with - | -
      · rw [List.find?_cons_of_neg (by simp [hc]), ih, recentVersionWhere_concat_of_neg hc]
      · simp only [List.find?_cons, hc, Option.map_some, recentVersionWhere_concat_of_pos hc]

/-- **How far back the last commits go**: the latest commit of a kind is found when fewer than
`limit` commits came after it. -/
theorem recentVersionWhere_append {before after : List α} {c : α} (hc : p c = true)
    (hafter : ∀ d ∈ after, p d = false) (limit : ℕ) :
    recentVersionWhere p limit (before ++ c :: after) =
      if after.length < limit then some before.length else none := by
  induction after using List.reverseRecOn generalizing limit with
  | nil =>
    rcases limit with - | limit
    · rfl
    · exact recentVersionWhere_concat_of_pos hc limit before
  | append_singleton after d ih =>
    rcases limit with - | limit
    · rfl
    · have hd : p d = false := hafter d List.mem_concat_self
      rw [← List.cons_append, ← List.append_assoc, recentVersionWhere_concat_of_neg hd,
        ih fun x hx ↦ hafter x (List.mem_append_left _ hx)]
      simp only [List.length_append, List.length_singleton, Nat.add_lt_add_iff_right]

end Kind

end TableLog
