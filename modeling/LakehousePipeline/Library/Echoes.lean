import LakehousePipeline.Library.Timeline
import LakehousePipeline.Library.Window

/-!
# Logs with echoes

An event that leaves the state it finds, and shows the value of the event before it, is an echo. Put
into a log anywhere, echoes start no version, close none and leave what every version shows
(`Echoes.versionsFrom`); so a log can be thinned out to any part that has all but its echoes
(`echoes_filter`).
-/

namespace Timeline

variable {E S W : Type*} [DecidableEq S]

/-- Two versions show the same: a version shows a column of its values by the last one that is not
null. -/
structure Version.SameValues (value : E → W) (v w : Version E) : Prop where
  /-- They start with the same event. -/
  start : v.start = w.start
  /-- They show the same values. -/
  values : ∀ {U : Type} (column : W → Option U),
    Window.lastNonNull (fun e ↦ column (value e)) v.members =
      Window.lastNonNull (fun e ↦ column (value e)) w.members
  /-- They are closed by the same event. -/
  closedBy : v.closedBy = w.closedBy

omit [DecidableEq S] in
theorem lastNonNull_of_repeats {U : Type} {rows more : List E} (h : Repeats rows more)
    (g : E → Option U) : Window.lastNonNull g rows = Window.lastNonNull g more := by
  induction h with
  | nil => rfl
  | cons x h ih => rw [Window.lastNonNull_cons, Window.lastNonNull_cons, ih]
  | again x h ih =>
    rename_i rest more
    rw [Window.lastNonNull_cons g x more, ← ih, Window.lastNonNull_cons]
    rcases Window.lastNonNull g rest with - | v
    · rcases g x with - | u <;> rfl
    · rfl

omit [DecidableEq S] in
/-- A version shows nothing of a repetition. -/
theorem Version.Same.sameValues {v w : Version E} (h : v.Same w) (value : E → W) :
    v.SameValues value w :=
  ⟨h.start, fun _ ↦ lastNonNull_of_repeats h.members _, h.closedBy⟩

variable (state : E → Option S) (value : E → W)

/-- The second log is the first one with echoes in it, both read after the state `prev`. Where there
is a state there is an event that has left it, with the value `held`. -/
inductive Echoes : Option S → Option W → List E → List E → Prop
  | nil {prev : Option S} {held : Option W} : Echoes prev held [] []
  | cons {prev : Option S} {held : Option W} (e : E) {log more : List E} :
      Echoes (state e) (some (value e)) log more → Echoes prev held (e :: log) (e :: more)
  | echo {prev : Option S} {held : Option W} (e : E) {log more : List E} : state e = prev →
      (state e ≠ none → some (value e) = held) → Echoes prev held log more →
        Echoes prev held log (e :: more)

variable {state value} {prev : Option S} {held : Option W} {log more : List E}

/-- What leaves another state is no echo. -/
theorem Echoes.find? (h : Echoes state value prev held log more) :
    (log.find? fun x ↦ state x ≠ prev) = more.find? fun x ↦ state x ≠ prev := by
  induction h with
  | nil => rfl
  | @cons prev held e log more h ih =>
    by_cases he : state e = prev
    · subst he
      rw [List.find?_cons_of_neg (by simp), List.find?_cons_of_neg (by simp), ih]
    · rw [List.find?_cons_of_pos (by simpa using he), List.find?_cons_of_pos (by simpa using he)]
  | echo e he hvalue h ih => rw [List.find?_cons_of_neg (by simpa using he), ih]

/-- The events of an open version show the same with echoes and without. -/
theorem Echoes.lastNonNull_takeWhile (h : Echoes state value prev held log more)
    (hprev : prev ≠ none)
    {U : Type} (column : W → Option U) {e : E} (hheld : held = some (value e)) :
    Window.lastNonNull (fun x ↦ column (value x)) (e :: log.takeWhile fun x ↦ state x = prev) =
      Window.lastNonNull (fun x ↦ column (value x))
        (e :: more.takeWhile fun x ↦ state x = prev) := by
  induction h generalizing e with
  | nil => rfl
  | @cons prev held next log more h ih =>
    by_cases hnext : state next = prev
    · subst hnext
      rw [List.takeWhile_cons_of_pos (by simp), List.takeWhile_cons_of_pos (by simp),
        Window.lastNonNull_cons _ e, Window.lastNonNull_cons _ e, ih hprev rfl]
    · rw [List.takeWhile_cons_of_neg (by simpa using hnext),
        List.takeWhile_cons_of_neg (by simpa using hnext)]
  | @echo prev held next log more hnext hvalue h ih =>
    have hsame : value next = value e :=
      Option.some.inj ((hvalue (hnext ▸ hprev)).trans hheld)
    rw [List.takeWhile_cons_of_pos (by simpa using hnext), ih hprev hheld, Window.lastNonNull_cons,
      Window.lastNonNull_cons _ e, Window.lastNonNull_cons, hsame, Option.or_assoc, Option.or_self]

/-- **Echoes leave the versions of a log as they are**, up to their members. -/
theorem Echoes.versionsFrom (h : Echoes state value prev held log more) :
    List.Forall₂ (Version.SameValues value) (versionsFrom state prev log)
      (versionsFrom state prev more) := by
  induction h with
  | nil => exact List.Forall₂.nil
  | @cons prev held e log more h ih =>
    by_cases he : state e = none ∨ state e = prev
    · rw [versionsFrom_cons_of_keep he, versionsFrom_cons_of_keep he]
      exact ih
    · rw [versionsFrom_cons_of_start he, versionsFrom_cons_of_start he]
      have hexists : state e ≠ none := (not_or.1 he).1
      exact List.Forall₂.cons
        ⟨rfl, fun column ↦ h.lastNonNull_takeWhile hexists column rfl, h.find?⟩ ih
  | @echo prev held e log more he hvalue h ih =>
    rw [versionsFrom_cons_of_keep (Or.inr he), he]
    exact ih

omit [DecidableEq S] in
/-- The value held after an event and what follows it. -/
theorem held_cons (e : E) (rest : List E) : ((e :: rest).getLast?.map value).or held =
    (rest.getLast?.map value).or (some (value e)) := by
  rw [List.getLast?_cons]
  rcases rest.getLast? with - | y
  · rfl
  · rfl

omit [DecidableEq S] in
/-- **A log without some of its echoes.** -/
theorem echoes_filter {keep : E → Bool}
    (h : ∀ pre x post, more = pre ++ x :: post → keep x = false →
    state x = lastState state prev pre ∧
      (state x ≠ none → some (value x) = (pre.getLast?.map value).or held)) :
    Echoes state value prev held (more.filter keep) more := by
  induction more generalizing prev held with
  | nil => exact Echoes.nil
  | cons e rest ih =>
    rcases hkeep : keep e with - | -
    · obtain ⟨he, hvalue⟩ := h [] e rest rfl hkeep
      rw [List.filter_cons_of_neg (by simp [hkeep])]
      refine Echoes.echo e he hvalue (ih fun pre x post hsplit hx ↦ ?_)
      obtain ⟨hx, hvaluex⟩ := h (e :: pre) x post (by rw [hsplit]; rfl) hx
      rw [lastState_cons, he, lastState_nil] at hx
      refine ⟨hx, fun hexists ↦ ?_⟩
      rw [hvaluex hexists, held_cons]
      rcases List.eq_nil_or_concat pre with rfl | ⟨init, y, rfl⟩
      · -- an echo of an echo shows what that one does
        have hstate : state x = state e := hx.trans he.symm
        exact hvalue (hstate ▸ hexists)
      · simp
    · rw [List.filter_cons_of_pos hkeep]
      refine Echoes.cons e (ih fun pre x post hsplit hx ↦ ?_)
      obtain ⟨hx, hvaluex⟩ := h (e :: pre) x post (by rw [hsplit]; rfl) hx
      rw [lastState_cons] at hx
      exact ⟨hx, fun hexists ↦ (hvaluex hexists).trans (held_cons e pre)⟩

end Timeline
