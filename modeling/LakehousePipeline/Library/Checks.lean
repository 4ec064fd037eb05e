import Mathlib.Data.List.Basic

/-!
# Checks that raise

Programs in `Except` that check one condition after another: `ensure` is a single check, and a
program gives a result when every check in it passes and the rest gives that result.
-/

namespace Checks

variable {ε α β : Type}

/-- Raises the error unless the condition holds. -/
def ensure (condition : Prop) [Decidable condition] (error : ε) : Except ε Unit :=
  if condition then .ok () else .error error

/-- A program that gives a result goes on from a result. -/
theorem exists_of_bind_eq_ok {x : Except ε α} {f : α → Except ε β} {b : β}
    (h : (x >>= f) = .ok b) : ∃ a, x = .ok a ∧ f a = .ok b := by
  cases x with
  | error e => cases h
  | ok a => exact ⟨a, rfl, h⟩

@[simp] theorem ok_bind (a : α) (f : α → Except ε β) : (Except.ok a >>= f) = f a :=
  rfl

theorem bind_eq_ok {x : Except ε α} {f : α → Except ε β} {b : β} :
    (x >>= f) = .ok b ↔ ∃ a, x = .ok a ∧ f a = .ok b := by
  refine ⟨exists_of_bind_eq_ok, ?_⟩
  rintro ⟨a, rfl, h⟩
  exact h

/-- A program fails where its first part or, after it, its second part does. -/
theorem bind_eq_error {x : Except ε α} {f : α → Except ε β} {e : ε} :
    (x >>= f) = .error e ↔ x = .error e ∨ ∃ a, x = .ok a ∧ f a = .error e := by
  cases x with
  | error e' => exact ⟨fun h ↦ .inl (congrArg _ (Except.error.inj h)),
      fun h ↦ h.elim (fun h ↦ congrArg _ (Except.error.inj h)) fun ⟨_, hok, _⟩ ↦ (by cases hok)⟩
  | ok a => exact ⟨fun h ↦ .inr ⟨a, rfl, h⟩,
      fun h ↦ h.elim (fun h ↦ (by cases h)) fun ⟨_, hok, h⟩ ↦ Except.ok.inj hok ▸ h⟩

section Ensure

variable {condition : Prop} [Decidable condition] {error : ε}

@[simp] theorem ensure_eq_ok {u : Unit} : ensure condition error = .ok u ↔ condition := by
  by_cases h : condition <;> simp [ensure, h]

theorem ensure_eq_error {e : ε} : ensure condition error = .error e ↔ ¬condition ∧ e = error := by
  by_cases h : condition <;> simp [ensure, h, eq_comm]

theorem ensure_of (h : condition) : ensure condition error = .ok () :=
  ensure_eq_ok.2 h

/-- A program after a check that fails. -/
theorem ensure_bind_of_not (h : ¬condition) (f : Unit → Except ε β) :
    (ensure condition error >>= f) = .error error := by
  rw [ensure, if_neg h]
  rfl

/-- A program after a check. -/
theorem ensure_bind_eq_ok {f : Unit → Except ε β} {b : β} :
    (ensure condition error >>= f) = .ok b ↔ condition ∧ f () = .ok b := by
  by_cases h : condition
  · simp [ensure, h]
  · simp [bind_eq_ok, h]

end Ensure

/-- A check of every element passes when each of them does. -/
theorem forM_eq_ok {xs : List α} {f : α → Except ε Unit} :
    forM xs f = .ok () ↔ ∀ x ∈ xs, f x = .ok () := by
  induction xs with
  | nil => simp [pure, Except.pure]
  | cons x xs ih =>
    rw [List.forM_cons, bind_eq_ok, List.forall_mem_cons]
    constructor
    · rintro ⟨⟨⟩, hx, hxs⟩
      exact ⟨hx, ih.1 hxs⟩
    · rintro ⟨hx, hxs⟩
      exact ⟨(), hx, ih.2 hxs⟩

section MapM

variable {xs : List α} {f : α → Except ε β}

/-- A list of programs that all give a result gives the list of the results. -/
theorem mapM_map_eq_ok {γ : Type} {zs : List γ} {g : γ → α} {k : γ → β}
    (h : ∀ z ∈ zs, f (g z) = .ok (k z)) : (zs.map g).mapM f = .ok (zs.map k) := by
  induction zs with
  | nil => rfl
  | cons z zs ih =>
    obtain ⟨hz, hzs⟩ := List.forall_mem_cons.1 h
    rw [List.map_cons, List.mapM_cons, hz, ok_bind, ih hzs]
    rfl

/-- Each result in the list is that of a program. -/
theorem exists_of_mapM_eq_ok {ys : List β} (h : xs.mapM f = .ok ys) :
    ∀ y ∈ ys, ∃ x ∈ xs, f x = .ok y := by
  induction xs generalizing ys with
  | nil =>
    cases h
    simp
  | cons x xs ih =>
    rw [List.mapM_cons] at h
    obtain ⟨y, hy, h⟩ := exists_of_bind_eq_ok h
    obtain ⟨ys', hys, h⟩ := exists_of_bind_eq_ok h
    cases h
    refine List.forall_mem_cons.2 ⟨⟨x, List.mem_cons_self, hy⟩, fun z hz ↦ ?_⟩
    obtain ⟨x', hx', hz'⟩ := ih hys z hz
    exact ⟨x', List.mem_cons_of_mem _ hx', hz'⟩

/-- Each program in the list gives a result. -/
theorem exists_of_mem_of_mapM_eq_ok {ys : List β} (h : xs.mapM f = .ok ys) :
    ∀ x ∈ xs, ∃ y, f x = .ok y := by
  induction xs generalizing ys with
  | nil => simp
  | cons x xs ih =>
    rw [List.mapM_cons] at h
    obtain ⟨y, hy, h⟩ := exists_of_bind_eq_ok h
    obtain ⟨ys', hys, -⟩ := exists_of_bind_eq_ok h
    exact List.forall_mem_cons.2 ⟨⟨y, hy⟩, ih hys⟩

end MapM

end Checks
