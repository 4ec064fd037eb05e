import Mathlib.Data.List.Basic

/-!
# Runs of a partial step function

A system is a partial step function on states: `step s a = some s'` when action `a` can be taken in
`s` and leads to `s'`. A run is a list of actions taken one after the other; it has no result when
one of them cannot be taken.

`Along` says that a condition holds at each step of a run. It is how an assumption about the
environment (no step comes too late, no step of a kind happens) is put: a condition on the state
before the step and the step, never on where the run ends. `run_invariant` is the one induction on
runs; what uses it proves what a single step preserves.
-/

namespace Runs

variable {σ α : Type*}

/-- The state after a list of actions. -/
def run (step : σ → α → Option σ) (s : σ) : List α → Option σ
  | [] => some s
  | a :: actions => (step s a).bind fun s' ↦ run step s' actions

/-- **A condition along a run**: it holds of each action and the state the action is taken in. -/
def Along (step : σ → α → Option σ) (ok : σ → α → Prop) (s : σ) : List α → Prop
  | [] => True
  | a :: actions => ok s a ∧ ∀ s' ∈ step s a, Along step ok s' actions

/-- A condition that can be checked can be checked along a run. -/
instance Along.decidable (step : σ → α → Option σ) (ok : σ → α → Prop)
    [∀ s a, Decidable (ok s a)] : ∀ s actions, Decidable (Along step ok s actions)
  | _, [] => inferInstanceAs (Decidable True)
  | s, a :: actions =>
    have := fun s' ↦ Along.decidable step ok s' actions
    inferInstanceAs (Decidable (ok s a ∧ ∀ s' ∈ step s a, Along step ok s' actions))

variable {step : σ → α → Option σ} {ok ok' : σ → α → Prop} {s s' : σ} {a : α} {actions : List α}

@[simp] theorem run_nil : run step s [] = some s := rfl

theorem run_cons_eq_some : run step s (a :: actions) = some s' ↔
    ∃ t, step s a = some t ∧ run step t actions = some s' :=
  Option.bind_eq_some_iff

theorem run_append_eq_some {more : List α} : run step s (actions ++ more) = some s' ↔
    ∃ t, run step s actions = some t ∧ run step t more = some s' := by
  induction actions generalizing s with
  | nil => simp
  | cons a actions ih =>
    rw [List.cons_append, run_cons_eq_some]
    constructor
    · rintro ⟨t, ht, hrest⟩
      obtain ⟨u, hu, hmore⟩ := ih.1 hrest
      exact ⟨u, run_cons_eq_some.2 ⟨t, ht, hu⟩, hmore⟩
    · rintro ⟨u, hu, hmore⟩
      obtain ⟨t, ht, hrest⟩ := run_cons_eq_some.1 hu
      exact ⟨t, ht, ih.2 ⟨u, hrest, hmore⟩⟩

theorem Along.mono (himp : ∀ s a, ok s a → ok' s a) (h : Along step ok s actions) :
    Along step ok' s actions := by
  induction actions generalizing s with
  | nil => trivial
  | cons a actions ih => exact ⟨himp s a h.1, fun t ht ↦ ih (h.2 t ht)⟩

/-- What holds of each action in every state holds along any run of them. -/
theorem along_of_forall (h : ∀ a ∈ actions, ∀ s, ok s a) (s : σ) : Along step ok s actions := by
  induction actions generalizing s with
  | nil => trivial
  | cons a actions ih =>
    exact ⟨h a List.mem_cons_self s, fun t _ ↦ ih (fun b hb ↦ h b (List.mem_cons_of_mem a hb)) t⟩

theorem Along.of_append {more : List α} (h : Along step ok s (actions ++ more)) :
    Along step ok s actions := by
  induction actions generalizing s with
  | nil => trivial
  | cons a actions ih => exact ⟨h.1, fun t ht ↦ ih (h.2 t ht)⟩

/-- A condition along a longer run holds along its end. -/
theorem Along.of_append_run {more : List α} (h : Along step ok s (actions ++ more))
    (hrun : run step s actions = some s') : Along step ok s' more := by
  induction actions generalizing s with
  | nil => exact Option.some.inj hrun ▸ h
  | cons a actions ih =>
    obtain ⟨t, ht, hrest⟩ := run_cons_eq_some.1 hrun
    exact ih (h.2 t ht) hrest

/-- A condition along a run and along what follows it. -/
theorem Along.append {more : List α} (h : Along step ok s actions)
    (hrun : run step s actions = some s') (hmore : Along step ok s' more) :
    Along step ok s (actions ++ more) := by
  induction actions generalizing s with
  | nil => exact Option.some.inj hrun ▸ hmore
  | cons a actions ih =>
    obtain ⟨t, ht, hrest⟩ := run_cons_eq_some.1 hrun
    refine ⟨h.1, fun t' ht' ↦ ?_⟩
    obtain rfl := Option.some.inj (ht.symm.trans ht')
    exact ih (h.2 t ht) hrest

theorem along_true (s : σ) (actions : List α) : Along step (fun _ _ ↦ True) s actions := by
  induction actions generalizing s with
  | nil => trivial
  | cons a actions ih => exact ⟨trivial, fun t _ ↦ ih t⟩

/-- **Run lemma**: what each step that meets the condition preserves, a run of such steps does. -/
theorem run_invariant (Inv : σ → Prop)
    (hstep : ∀ s a s', Inv s → ok s a → step s a = some s' → Inv s')
    (hs : Inv s) (hok : Along step ok s actions) (hrun : run step s actions = some s') :
    Inv s' := by
  induction actions generalizing s with
  | nil => exact Option.some.inj hrun ▸ hs
  | cons a actions ih =>
    obtain ⟨t, ht, hrest⟩ := run_cons_eq_some.1 hrun
    exact ih (hstep s a t hs hok.1 ht) (hok.2 t ht) hrest

/-- The run lemma for steps without a condition. -/
theorem run_invariant_of_step (Inv : σ → Prop)
    (hstep : ∀ s a s', Inv s → step s a = some s' → Inv s') (hs : Inv s)
    (hrun : run step s actions = some s') : Inv s' :=
  run_invariant Inv (fun s a t hinv _ ↦ hstep s a t hinv) hs (along_true s _) hrun

end Runs
