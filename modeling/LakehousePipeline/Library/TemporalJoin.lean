import Mathlib.Order.Lattice
import LakehousePipeline.Library.Window

/-!
# Joins of two timelines

A timeline is a set of entries that follow one another: each is in force from its start on until it
stops, which is when the next one starts, and the last one never stops. Entries may be momentary,
that is, stop when they start.

Two timelines are joined where their entries overlap. The pair of entries in force at an instant is
one of the overlaps, and of all overlaps that have begun by then it has begun last; it is alone in
that unless an entry of a rival is momentary (`IsTimeline.join_lt`). Nothing is assumed about how
the two timelines interleave.
-/

namespace TemporalJoin

variable {σ ρ T : Type*} [LinearOrder T]

/-- The entry has started and not stopped. -/
def InForce (start : σ → T) (stop : σ → Option T) (a : σ) (t : T) : Prop :=
  start a ≤ t ∧ ∀ s, stop a = some s → t < s

/-- **Entries that follow one another.** -/
structure IsTimeline (start : σ → T) (stop : σ → Option T) (S : Set σ) : Prop where
  /-- No entry stops before it starts. -/
  ordered : ∀ a ∈ S, ∀ s, stop a = some s → start a ≤ s
  /-- Of two entries one stops by the time the other starts. -/
  apart : ∀ a ∈ S, ∀ b ∈ S, a ≠ b →
    (∃ s, stop a = some s ∧ s ≤ start b) ∨ ∃ s, stop b = some s ∧ s ≤ start a
  /-- Since the first start some entry is in force. -/
  covers : ∀ a ∈ S, ∀ t, start a ≤ t → ∃ b ∈ S, InForce start stop b t

/-- The entries overlap; those that never stop count as stopping at `top`. -/
def Overlap (start : σ → T) (stop : σ → Option T) (start' : ρ → T) (stop' : ρ → Option T) (top : T)
    (a : σ) (b : ρ) : Prop :=
  start a < (stop' b).getD top ∧ start' b < (stop a).getD top

section Timeline

variable {start : σ → T} {stop : σ → Option T} {S : Set σ} {a b : σ} {t top : T}

theorem InForce.lt_getD (h : InForce start stop a t) (ht : t < top) : t < (stop a).getD top := by
  rcases hs : stop a with - | s
  · exact ht
  · exact h.2 s hs

/-- What has started by `t` is the entry in force at `t`, or has stopped when that one starts. -/
theorem IsTimeline.eq_or_stops (h : IsTimeline start stop S) (ha : a ∈ S) (hb : b ∈ S)
    (hforce : InForce start stop b t) (hle : start a ≤ t) :
    a = b ∨ ∃ s, stop a = some s ∧ s ≤ start b := by
  rcases eq_or_ne a b with heq | hne
  · exact Or.inl heq
  · rcases h.apart a ha b hb hne with hstops | ⟨s, hs, hsa⟩
    · exact Or.inr hstops
    · exact absurd (hforce.2 s hs) (hsa.trans hle).not_gt

end Timeline

/-! ### The join -/

section Join

variable {start : σ → T} {stop : σ → Option T} {start' : ρ → T} {stop' : ρ → Option T}
  {S : Set σ} {R : Set ρ} {a x : σ} {b y : ρ} {t top : T}

/-- What is in force at one instant overlaps. -/
theorem overlap_of_inForce (ht : t < top) (ha : InForce start stop a t)
    (hb : InForce start' stop' b t) : Overlap start stop start' stop' top a b :=
  ⟨ha.1.trans_lt (hb.lt_getD ht), hb.1.trans_lt (ha.lt_getD ht)⟩

/-- An overlap that began before the entry in force on the left did. -/
theorem Overlap.join_le_left (h : IsTimeline start stop S) (hx : x ∈ S)
    (hoverlap : Overlap start stop start' stop' top x y) {s : T} (hs : stop x = some s)
    (hsa : s ≤ start a) :
    start x ⊔ start' y ≤ start a ∧ (stop x ≠ some (start x) → start x ⊔ start' y < start a) := by
  have hle : start x ≤ s := h.ordered x hx s hs
  have hlt : start' y < s := by
    have h2 := hoverlap.2
    rwa [hs] at h2
  refine ⟨sup_le (hle.trans hsa) (hlt.le.trans hsa), fun hlast ↦ ?_⟩
  have hne : start x ≠ s := fun heq ↦ hlast (heq ▸ hs)
  exact sup_lt_iff.2 ⟨(hle.lt_of_ne hne).trans_le hsa, hlt.trans_le hsa⟩

/-- An entry that lasts is in force when an overlap of it begins. -/
theorem Overlap.inForce_left (h : IsTimeline start stop S) (hx : x ∈ S)
    (hoverlap : Overlap start stop start' stop' top x y) (hlast : stop x ≠ some (start x)) :
    InForce start stop x (start x ⊔ start' y) := by
  refine ⟨le_sup_left, fun s hs ↦ sup_lt_iff.2 ⟨?_, ?_⟩⟩
  · exact (h.ordered x hx s hs).lt_of_ne fun heq ↦ hlast (heq ▸ hs)
  · have h2 := hoverlap.2
    rwa [hs] at h2

/-- **How an overlap begins**: both entries are in force, or one begins in the middle of the
other. -/
theorem Overlap.begins (hoverlap : Overlap start stop start' stop' top x y)
    (hj : start x ⊔ start' y = t) : (InForce start stop x t ∧ InForce start' stop' y t) ∨
      (start x = t ∧ start' y < t ∧ InForce start' stop' y t) ∨
        (start' y = t ∧ start x < t ∧ InForce start stop x t) := by
  obtain ⟨hxy, hyx⟩ := hoverlap
  have hx : ∀ s, stop x = some s → start' y < s := fun s hs ↦ by rwa [hs] at hyx
  have hy : ∀ s, stop' y = some s → start x < s := fun s hs ↦ by rwa [hs] at hxy
  rcases lt_trichotomy (start x) (start' y) with hlt | heq | hgt
  · rw [sup_eq_right.2 hlt.le] at hj
    subst hj
    exact Or.inr (Or.inr ⟨rfl, hlt, hlt.le, hx⟩)
  · rw [heq, sup_idem] at hj
    subst hj
    exact Or.inl ⟨⟨heq.le, hx⟩, le_rfl, fun s hs ↦ heq ▸ hy s hs⟩
  · rw [sup_eq_left.2 hgt.le] at hj
    subst hj
    exact Or.inr (Or.inl ⟨rfl, hgt, hgt.le, hy⟩)

/-- An entry overlaps what it begins in the middle of, even if it is momentary. -/
theorem overlap_of_begins (h : IsTimeline start stop S) (hx : x ∈ S) (ht : t < top)
    (hbegin : start x = t) (hy : InForce start' stop' y t) (hlt : start' y < t) :
    Overlap start stop start' stop' top x y := by
  refine ⟨hbegin ▸ hy.lt_getD ht, ?_⟩
  rcases hs : stop x with - | s
  · exact hlt.trans ht
  · have hle : t ≤ s := hbegin ▸ h.ordered x hx s hs
    exact hlt.trans_le hle

variable (hS : IsTimeline start stop S) (hR : IsTimeline start' stop' R) (ha : a ∈ S) (hb : b ∈ R)
  (haforce : InForce start stop a t) (hbforce : InForce start' stop' b t)
  (hx : x ∈ S) (hy : x = a → y ∈ R) (hoverlap : Overlap start stop start' stop' top x y)
  (hxt : start x ≤ t) (hyt : start' y ≤ t)

include hS hR ha hb haforce hbforce hx hy hoverlap hxt hyt

/-- An overlap that has begun is the pair in force, or has begun no later, and earlier if its
entries last. On the right only the partners of `a` need to be a timeline. -/
theorem IsTimeline.join_cases :
    (x = a ∧ y = b) ∨ (start x ⊔ start' y ≤ start a ⊔ start' b ∧
      (stop x ≠ some (start x) → stop' y ≠ some (start' y) →
        start x ⊔ start' y < start a ⊔ start' b)) := by
  rcases hS.eq_or_stops hx ha haforce hxt with rfl | ⟨s, hs, hsa⟩
  · rcases hR.eq_or_stops (hy rfl) hb hbforce hyt with rfl | ⟨s, hs, hsb⟩
    · exact Or.inl ⟨rfl, rfl⟩
    · have hswap : Overlap start' stop' start stop top y x := ⟨hoverlap.2, hoverlap.1⟩
      obtain ⟨hle, hlt⟩ := hswap.join_le_left hR (hy rfl) hs hsb
      rw [sup_comm] at hle hlt
      exact Or.inr ⟨hle.trans le_sup_right, fun _ hlast ↦ (hlt hlast).trans_le le_sup_right⟩
  · obtain ⟨hle, hlt⟩ := hoverlap.join_le_left hS hx hs hsa
    exact Or.inr ⟨hle.trans le_sup_left, fun hlast _ ↦ (hlt hlast).trans_le le_sup_left⟩

/-- **No other overlap of entries that last has begun when the pair in force did.** -/
theorem IsTimeline.join_lt (hne : ¬(x = a ∧ y = b)) (hxlast : stop x ≠ some (start x))
    (hylast : stop' y ≠ some (start' y)) : start x ⊔ start' y < start a ⊔ start' b := by
  rcases hS.join_cases hR ha hb haforce hbforce hx hy hoverlap hxt hyt with heq | ⟨-, hlt⟩
  · exact absurd heq hne
  · exact hlt hxlast hylast

end Join

/-! ### Timelines cut by `lead` -/

section Lead

variable {α : Type*} {start : σ → T} {stop : σ → Option T} {time : α → T} {rows : List α}
  {f : List α → α → List α → σ}

/-- **A sorted list is a timeline**: every row is in force until the next. -/
theorem isTimeline_overRows (hsorted : rows.Pairwise fun x y ↦ time x ≤ time y)
    (hstart : ∀ b x r, start (f b x r) = time x)
    (hstop : ∀ b x r, stop (f b x r) = r.head?.map time) :
    IsTimeline start stop {a | a ∈ Window.overRows f rows} := by
  -- the earlier of two rows stops before the later one starts
  have hapart : ∀ pre x post pre' x' post', rows = pre ++ x :: post → rows = pre' ++ x' :: post' →
      pre.length < pre'.length → ∃ s, stop (f pre x post) = some s ∧ s ≤ time x' := by
    intro pre x post pre' x' post' hsplit hsplit' hlt
    obtain ⟨mid, rfl⟩ : ∃ mid, post = mid ++ x' :: post' := by
      rcases List.append_eq_append_iff.1 (hsplit.symm.trans hsplit') with
        ⟨mid, rfl, hmid⟩ | ⟨mid, rfl, -⟩
      · rcases mid with - | ⟨z, mid⟩
        · rw [List.append_nil] at hlt
          exact absurd hlt (lt_irrefl _)
        · exact ⟨mid, (List.cons.inj hmid).2⟩
      · rw [List.length_append] at hlt
        omega
    rw [hstop]
    rw [hsplit, List.pairwise_append, List.pairwise_cons] at hsorted
    rcases mid with - | ⟨y, mid⟩
    · exact ⟨_, rfl, le_rfl⟩
    · refine ⟨_, rfl, ?_⟩
      have htail := hsorted.2.1.2
      rw [List.cons_append, List.pairwise_cons] at htail
      exact htail.1 x' (by simp)
  refine ⟨fun a ha s hs ↦ ?_, fun a ha b hb hne ↦ ?_, fun a ha t hle ↦ ?_⟩
  · obtain ⟨pre, x, post, hsplit, rfl⟩ := Window.mem_overRows.1 ha
    rw [hstop] at hs
    obtain ⟨y, hy, rfl⟩ := Option.map_eq_some_iff.1 hs
    rw [hsplit, List.pairwise_append, List.pairwise_cons] at hsorted
    rw [hstart]
    exact hsorted.2.1.1 y (List.mem_of_head? hy)
  · obtain ⟨pre, x, post, hsplit, rfl⟩ := Window.mem_overRows.1 ha
    obtain ⟨pre', x', post', hsplit', rfl⟩ := Window.mem_overRows.1 hb
    rw [hstart, hstart]
    rcases lt_trichotomy pre.length pre'.length with hlt | heq | hgt
    · exact Or.inl (hapart pre x post pre' x' post' hsplit hsplit' hlt)
    · -- two splits at one place are one
      obtain ⟨rfl, hcons⟩ := List.append_inj (hsplit.symm.trans hsplit') heq
      obtain ⟨rfl, rfl⟩ := List.cons.inj hcons
      exact absurd rfl hne
    · exact Or.inr (hapart pre' x' post' pre x post hsplit' hsplit hgt)
  · -- the last row that has started
    obtain ⟨pre, x, post, hsplit, rfl⟩ := Window.mem_overRows.1 ha
    rw [hstart] at hle
    -- induction on the rows after it: move right while the next has started
    induction post generalizing pre x with
    | nil =>
      refine ⟨_, ha, by rwa [hstart], fun s hs ↦ ?_⟩
      rw [hstop] at hs
      cases hs
    | cons y post ih =>
      by_cases hy : time y ≤ t
      · have hsplit' : rows = (pre ++ [x]) ++ y :: post := by rw [hsplit, List.append_assoc]; rfl
        exact ih (pre ++ [x]) y hsplit' (Window.mem_overRows.2 ⟨_, _, _, hsplit', rfl⟩) hy
      · refine ⟨_, ha, by rwa [hstart], fun s hs ↦ ?_⟩
        rw [hstop] at hs
        obtain rfl := Option.some.inj hs
        exact lt_of_not_ge hy

/-- A row that the next one follows after `t` is the last of those that have started by `t`. -/
theorem le_of_lt_head {K : Type*} [LinearOrder K] {key : α → K}
    (hkey : rows.Pairwise fun x y ↦ key x ≤ key y)
    (hsorted : rows.Pairwise fun x y ↦ time x ≤ time y) {pre post : List α} {x : α} {t : T}
    (hsplit : rows = pre ++ x :: post) (hnext : ∀ s, post.head?.map time = some s → t < s) {y : α}
    (hy : y ∈ rows) (hle : time y ≤ t) : key y ≤ key x := by
  rw [hsplit, List.pairwise_append, List.pairwise_cons] at hkey hsorted
  rw [hsplit, List.mem_append, List.mem_cons] at hy
  rcases hy with hpre | rfl | hpost
  · exact hkey.2.2 y hpre x List.mem_cons_self
  · exact le_rfl
  · -- a row after it has not started
    rcases post with - | ⟨z, post⟩
    · cases hpost
    · have hlt : t < time z := hnext _ rfl
      have hz : time z ≤ time y := by
        rcases List.mem_cons.1 hpost with rfl | hpost
        · exact le_rfl
        · exact (List.pairwise_cons.1 hsorted.2.1.2).1 y hpost
      exact absurd (hz.trans hle) hlt.not_ge

end Lead

end TemporalJoin
