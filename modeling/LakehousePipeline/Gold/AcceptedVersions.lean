import LakehousePipeline.Gold.FactJoins
import LakehousePipeline.Gold.Quality

/-!
# What the SCD2 gate accepts

The gate looks at a member's versions in one order only, each against the one ahead, and at two
aggregates. In a dimension it accepts, the ranges of a member are not empty and no two of them share
an instant (`disjointVersions_of_accepted`), and at most one version is current.

A member without a current version passes if *some* version of it is marked deleted. The latest end
of the member is computed next to that aggregate and compared with nothing, so the version with the
latest end need not be the deleted one.

## What the aggregate misses

A maximum over all versions does not see in which order they come. A member that was deleted and
reopened has a deleted version whatever became of it later, so the rule says nothing about the
versions after that one. `ReopenedEndsDeleted` is what is left to ask of them, and with it the gate
is sound (`soundVersions_iff`): that there is a deleted version at all comes from the gate.
-/

namespace LakehousePipeline

variable {A κ V : Type}

/-- **Versions of one member as the gate is meant to leave them.** -/
structure SoundVersions (versions : List (Scd2Row A κ V)) : Prop where
  /-- No range is empty. -/
  range : ∀ v ∈ versions, v.effectiveFrom < v.effectiveTo
  /-- No two ranges share an instant. -/
  disjoint : versions.Pairwise fun v w ↦ ∀ t, ¬(v.Covers t ∧ w.Covers t)
  /-- At most one version is current. -/
  current : (versions.filter fun v ↦ v.isCurrent).length ≤ 1
  /-- If none is, the version with the latest end is marked deleted. -/
  ended : (versions.filter fun v ↦ v.isCurrent) = [] →
    ∀ v ∈ versions, (∀ w ∈ versions, w.effectiveTo ≤ v.effectiveTo) → v.isDeleted = true

/-- **A reopened member ends deleted**, unless it has a current version: a version that comes after
one marked deleted, and is not marked itself, comes before one that is. -/
def ReopenedEndsDeleted (versions : List (Scd2Row A κ V)) : Prop :=
  (versions.filter fun v ↦ v.isCurrent) = [] → ∀ d ∈ versions, d.isDeleted = true →
    ∀ v ∈ versions, v.isDeleted = false → d.effectiveTo ≤ v.effectiveFrom →
      ∃ later ∈ versions, later.isDeleted = true ∧ v.effectiveTo ≤ later.effectiveFrom

instance (versions : List (Scd2Row A κ V)) : Decidable (ReopenedEndsDeleted versions) :=
  inferInstanceAs (Decidable (_ → ∀ d ∈ versions, _ → ∀ v ∈ versions, _ → _ →
    ∃ later ∈ versions, _ ∧ _))

/-! ### The three rules -/

section Rules

variable {dimension : List (Scd2Row A κ V)}

/-- What it takes to be accepted. -/
theorem rules_of_accepted (h : scd2Violation dimension = none) :
    (∀ v ∈ knownVersions dimension, hasInvalidCurrent dimension v.sourceKey = false) ∧
      (∀ v ∈ knownVersions dimension, v.effectiveFrom < v.effectiveTo) ∧
      hasOverlap dimension = false := by
  rw [scd2Violation] at h
  split at h
  · cases h
  · rename_i hcurrent
    split at h
    · cases h
    · rename_i hrange
      split at h
      · cases h
      · rename_i hoverlap
        refine ⟨fun v hv ↦ ?_, fun v hv ↦ ?_, Bool.eq_false_iff.2 hoverlap⟩
        · refine Bool.eq_false_iff.2 fun hinvalid ↦ hcurrent ?_
          exact List.any_eq_true.2 ⟨v.sourceKey, List.mem_map_of_mem hv, hinvalid⟩
        · refine not_le.1 fun hle ↦ hrange ?_
          exact List.any_eq_true.2 ⟨v, hv, decide_eq_true hle⟩

theorem mem_versionsOf {member : Option ℤ} {v : Scd2Row A κ V} :
    v ∈ versionsOf dimension member ↔ v ∈ knownVersions dimension ∧ v.sourceKey = member := by
  rw [versionsOf, List.mem_filter, decide_eq_true_eq]

/-- **The lag over one order separates all versions of a member.** -/
theorem disjointVersions_of_accepted (h : scd2Violation dimension = none) (k : ℤ) :
    (versionsOf dimension (some k)).Pairwise fun v w ↦ ∀ t, ¬(v.Covers t ∧ w.Covers t) := by
  obtain ⟨-, hrange, hoverlap⟩ := rules_of_accepted h
  set r : Scd2Row A κ V → Scd2Row A κ V → Prop := fun v w ↦
    (toLex (v.effectiveFrom, v.surrogateKey) : ℤ ×ₗ ℤ) ≤ toLex (w.effectiveFrom, w.surrogateKey)
  set sorted := (versionsOf dimension (some k)).insertionSort r with hsorted
  have hmem : ∀ v ∈ sorted, v ∈ knownVersions dimension := fun v hv ↦
    (mem_versionsOf.1 ((List.mem_insertionSort r).1 hv)).1
  have hahead : sorted.Pairwise fun v w ↦ v.effectiveTo ≤ w.effectiveFrom := by
    refine Window.pairwise_of_lag (fun a _ b hb c _ hab hbc ↦ ?_) ?_
    · have hlt := hrange b (hmem b hb)
      exact (hab.trans hlt.le).trans hbc
    · intro before v after hsplit previous hprevious
      rw [hasOverlap, List.any_eq_false] at hoverlap
      have hv : v ∈ versionsOf dimension (some k) :=
        (List.mem_insertionSort r).1 (hsorted ▸ hsplit ▸ by simp)
      obtain ⟨hknown, hkey⟩ := mem_versionsOf.1 hv
      have hflag := hoverlap _ ((Window.mem_overPartition _ r).2
        ⟨v, hknown, before, v, after, by rw [hkey]; exact hsplit, rfl⟩)
      simpa [hprevious] using hflag
  have hdisjoint : sorted.Pairwise fun v w ↦ ∀ t, ¬(v.Covers t ∧ w.Covers t) := by
    refine hahead.imp fun hle t hboth ↦ ?_
    exact absurd (hboth.1.2.trans_le (hle.trans hboth.2.1)) (lt_irrefl t)
  exact ((List.perm_insertionSort r _).pairwise_iff
    fun hvw t hboth ↦ hvw t hboth.symm).1 hdisjoint

/-- A member has at most one current version. -/
theorem current_of_accepted (h : scd2Violation dimension = none) (k : ℤ) :
    ((versionsOf dimension (some k)).filter fun v ↦ v.isCurrent).length ≤ 1 := by
  rcases hversions : versionsOf dimension (some k) with - | ⟨v, rest⟩
  · exact Nat.zero_le 1
  · have hv : v ∈ versionsOf dimension (some k) := by
      rw [hversions]
      exact List.mem_cons_self
    obtain ⟨hknown, hkey⟩ := mem_versionsOf.1 hv
    have hvalid := (rules_of_accepted h).1 v hknown
    rw [hkey, hasInvalidCurrent, Bool.or_eq_false_iff, hversions] at hvalid
    exact not_lt.1 (of_decide_eq_false hvalid.1)

/-- **A member with neither a current nor a deleted version is refused**: the maximum of
`is_deleted` is 0. -/
theorem exists_isDeleted_of_accepted (h : scd2Violation dimension = none) {k : ℤ}
    {v : Scd2Row A κ V} (hv : v ∈ versionsOf dimension (some k))
    (hnone : ((versionsOf dimension (some k)).filter fun v ↦ v.isCurrent) = []) :
    ∃ d ∈ versionsOf dimension (some k), d.isDeleted = true := by
  obtain ⟨hknown, hkey⟩ := mem_versionsOf.1 hv
  have hvalid := (rules_of_accepted h).1 v hknown
  rw [hkey, hasInvalidCurrent, Bool.or_eq_false_iff, hnone] at hvalid
  simpa using hvalid.2

end Rules

/-! ### The version with the latest end -/

/-- Some version ends last. -/
theorem exists_latestEnd {versions : List (Scd2Row A κ V)} (hne : versions ≠ []) :
    ∃ v ∈ versions, ∀ w ∈ versions, w.effectiveTo ≤ v.effectiveTo := by
  induction versions with
  | nil => exact absurd rfl hne
  | cons v rest ih =>
    rcases eq_or_ne rest [] with rfl | hrest
    · exact ⟨v, List.mem_cons_self, fun w hw ↦ by rw [List.mem_singleton.1 hw]⟩
    · obtain ⟨m, hm, hmax⟩ := ih hrest
      rcases le_total v.effectiveTo m.effectiveTo with hle | hle
      · refine ⟨m, List.mem_cons_of_mem _ hm, fun w hw ↦ ?_⟩
        rcases List.mem_cons.1 hw with rfl | hw
        · exact hle
        · exact hmax w hw
      · refine ⟨v, List.mem_cons_self, fun w hw ↦ ?_⟩
        rcases List.mem_cons.1 hw with rfl | hw
        · exact le_rfl
        · exact (hmax w hw).trans hle

/-- Where no two ranges share an instant, one of two versions ends before the other begins. -/
theorem le_or_le_of_disjoint {versions : List (Scd2Row A κ V)}
    (hrange : ∀ v ∈ versions, v.effectiveFrom < v.effectiveTo)
    (hdisjoint : versions.Pairwise fun v w ↦ ∀ t, ¬(v.Covers t ∧ w.Covers t))
    {v w : Scd2Row A κ V} (hv : v ∈ versions) (hw : w ∈ versions) (hne : v ≠ w) :
    v.effectiveTo ≤ w.effectiveFrom ∨ w.effectiveTo ≤ v.effectiveFrom := by
  have : Std.Symm fun v w : Scd2Row A κ V ↦ ∀ t, ¬(v.Covers t ∧ w.Covers t) :=
    ⟨fun _ _ hxy t hboth ↦ hxy t hboth.symm⟩
  have hapart : ∀ t, ¬(v.Covers t ∧ w.Covers t) := hdisjoint.forall hv hw hne
  by_contra hboth
  obtain ⟨hvw, hwv⟩ := not_or.1 hboth
  -- the later of the two starts is in both ranges
  refine hapart (v.effectiveFrom ⊔ w.effectiveFrom) ⟨⟨le_sup_left, ?_⟩, le_sup_right, ?_⟩
  · exact sup_lt_iff.2 ⟨hrange v hv, not_le.1 hvw⟩
  · exact sup_lt_iff.2 ⟨not_le.1 hwv, hrange w hw⟩

/-- **The gate is sound for a member exactly if the member, once reopened, ends deleted.** -/
theorem soundVersions_iff {dimension : List (Scd2Row A κ V)} (h : scd2Violation dimension = none)
    (k : ℤ) :
    SoundVersions (versionsOf dimension (some k)) ↔
      ReopenedEndsDeleted (versionsOf dimension (some k)) := by
  have hrange : ∀ v ∈ versionsOf dimension (some k), v.effectiveFrom < v.effectiveTo :=
    fun v hv ↦ (rules_of_accepted h).2.1 v (mem_versionsOf.1 hv).1
  have hdisjoint := disjointVersions_of_accepted h k
  have hne : ∀ {v d : Scd2Row A κ V}, v.isDeleted = false → d.isDeleted = true → v ≠ d := by
    rintro v d hkept hdeleted rfl
    rw [hdeleted] at hkept
    cases hkept
  constructor
  · intro hsound hnone d hd hdeleted v hv hkept hafter
    obtain ⟨last, hlast, hmax⟩ := exists_latestEnd (List.ne_nil_of_mem hv)
    have hend := hsound.ended hnone last hlast hmax
    refine ⟨last, hlast, hend, ?_⟩
    rcases le_or_le_of_disjoint hrange hdisjoint hv hlast (hne hkept hend) with hle | hle
    · exact hle
    · -- the last version would end before `v` begins
      exact absurd (hmax v hv) (not_le.2 (hle.trans_lt (hrange v hv)))
  · intro hreopened
    refine ⟨hrange, hdisjoint, current_of_accepted h k, fun hnone v hv hmax ↦ ?_⟩
    by_contra hkept
    have hkept := Bool.eq_false_iff.2 hkept
    obtain ⟨d, hd, hdeleted⟩ := exists_isDeleted_of_accepted h hv hnone
    -- some version is deleted, so `v` comes after a deletion or before one
    obtain ⟨later, hlater, hle⟩ :
        ∃ later ∈ versionsOf dimension (some k), v.effectiveTo ≤ later.effectiveFrom := by
      rcases le_or_le_of_disjoint hrange hdisjoint hv hd (hne hkept hdeleted) with hle | hle
      · exact ⟨d, hd, hle⟩
      · obtain ⟨later, hlater, -, hle⟩ := hreopened hnone d hd hdeleted v hv hkept hle
        exact ⟨later, hlater, hle⟩
    exact absurd (hmax later hlater) (not_le.2 (hle.trans_lt (hrange later hlater)))

/-- A version of member 7. -/
def memberVersion (surrogateKey : ℤ) (effectiveFrom effectiveTo : Timestamp)
    (isCurrent isDeleted : Bool) : Scd2Row Unit Empty ℤ where
  surrogateKey := surrogateKey
  sourceKey := some 7
  attributes := ()
  attributeHash := some ['h']
  type1 := Empty.elim
  effectiveFrom := effectiveFrom
  effectiveTo := effectiveTo
  isCurrent := isCurrent
  isDeleted := isDeleted

/-- A member that was deleted, came back, was renamed and deleted again. -/
theorem soundVersions_iff_deletedTwice :
    SoundVersions (versionsOf [memberVersion 3 40 50 false true, memberVersion 1 10 20 false true,
      memberVersion 2 30 40 false false] (some 7)) :=
  (soundVersions_iff (by decide) 7).2 (by decide)

/-- **The gate accepts a member that was deleted, came back and is just missing**: its last version
is neither current nor deleted. -/
theorem not_soundVersions_missing :
    scd2Violation [memberVersion 1 10 20 false true, memberVersion 2 30 40 false false] = none ∧
      ¬SoundVersions (versionsOf
        [memberVersion 1 10 20 false true, memberVersion 2 30 40 false false] (some 7)) := by
  refine ⟨by decide, fun hsound ↦ ?_⟩
  have hlast := hsound.ended (by decide) (memberVersion 2 30 40 false false) (by decide) (by decide)
  cases hlast

end LakehousePipeline
