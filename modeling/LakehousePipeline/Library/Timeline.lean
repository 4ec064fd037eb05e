import Mathlib.Data.List.Dedup
import Mathlib.Data.List.Induction
import Mathlib.Data.List.TakeWhile
import Mathlib.Order.Lattice

/-!
# Versions of a change log

A change log is a list of events in order, each leaving its entity in a state: `some s` when the
entity exists with attributes `s`, `none` when it does not. `versions` cuts the log into maximal
runs of one state: a version starts where the state becomes some `s` it was not before, and is
closed by the first later event that leaves another state.

## Continuing a log

The log is read left to right with the state before it (`prev`), so `versionsFrom_append` is an
equation: continuing a log keeps the versions already begun and only extends the open one. From it
come the two facts that matter:

* `open_versions_eq`: at the end of a log there is one open version when the entity exists, and none
  otherwise; it starts where the log entered the state it leaves (`map_start_openVersions`);
* `covering_versions_eq`: with times attached, the same holds at every instant. The version that
  covers `t` is the one open after the last event at or before `t`.

The second is the first, applied to the events at or before `t`: in a sorted log they are a prefix,
and what comes after them only closes the version that is open.

## Versions without positions

A log that comes out of a table has no positions of its own, only an order on its events. In a
strict order the position of an event is determined by its key, and everything a version is made of
can be said of the log as a set: its members (`mem_members_iff`), what closes it
(`closedBy_eq_some_iff`) and where versions start (`mem_map_start_iff_of_sorted`). These are the
forms a specification can use that does not mention the cut.

Where the order has ties, nothing is assumed about them: events may share a time, and a version
closed at the instant it starts covers nothing. Where events that tie are equal, a log and the same
log with repetitions have the same versions up to repeated members (`Repeats.versionsFrom`), and so
do two sorted lists of the same events, however often each of them occurs (`dedup_eq_of_sorted`).
-/

namespace Timeline

variable {E S : Type*} [DecidableEq S]

/-- A maximal run of one state: the event that starts it, the events that belong to it and the event
that closes it, if any. -/
structure Version (E : Type*) where
  /-- The event the version starts with. -/
  start : E
  /-- All events of the version, the starting one included, in order. -/
  members : List E
  /-- The first later event that leaves another state. -/
  closedBy : Option E

variable (state : E → Option S)

/-- The versions of a log read after the state `prev`. -/
def versionsFrom (prev : Option S) : List E → List (Version E)
  | [] => []
  | e :: rest =>
    if state e = none ∨ state e = prev then versionsFrom (state e) rest
    else
      { start := e
        members := e :: rest.takeWhile fun x ↦ state x = state e
        closedBy := rest.find? fun x ↦ state x ≠ state e } :: versionsFrom (state e) rest

/-- The versions of a log. -/
def versions (log : List E) : List (Version E) :=
  versionsFrom state none log

/-- The state a log leaves behind. -/
def lastState (prev : Option S) (log : List E) : Option S :=
  (log.getLast?.map state).getD prev

/-- Continuing the log: an open version takes the events that keep its state and is closed by the
first that does not. -/
def extend (more : List E) (v : Version E) : Version E :=
  match v.closedBy with
  | some _ => v
  | none =>
    { v with
      members := v.members ++ more.takeWhile fun x ↦ state x = state v.start
      closedBy := more.find? fun x ↦ state x ≠ state v.start }

variable {state}

omit [DecidableEq S] in
/-- An empty log leaves the state it began in. -/
@[simp] theorem lastState_nil (prev : Option S) : lastState state prev [] = prev := rfl

omit [DecidableEq S] in
/-- The state before the rest of a log is the one its first event leaves. -/
@[simp] theorem lastState_cons (prev : Option S) (e : E) (rest : List E) :
    lastState state prev (e :: rest) = lastState state (state e) rest := by
  cases rest with
  | nil => rfl
  | cons x rest => simp [lastState, List.getLast?_eq_some_getLast]

omit [DecidableEq S] in
/-- A log that never leaves its state. -/
theorem lastState_of_const {prev : Option S} {log : List E} (h : ∀ e ∈ log, state e = prev) :
    lastState state prev log = prev := by
  cases hlast : log.getLast? with
  | none => rw [lastState, hlast, Option.map_none, Option.getD_none]
  | some e => rw [lastState, hlast, Option.map_some, Option.getD_some,
      h e (List.mem_of_getLast? hlast)]

/-- An event that leaves no entity, or the state as it was, starts no version. -/
theorem versionsFrom_cons_of_keep {prev : Option S} {e : E} (h : state e = none ∨ state e = prev)
    (rest : List E) : versionsFrom state prev (e :: rest) = versionsFrom state (state e) rest := by
  rw [versionsFrom, if_pos h]

/-- An event that enters a state starts a version, whose members and end are read off the rest. -/
theorem versionsFrom_cons_of_start {prev : Option S} {e : E}
    (h : ¬(state e = none ∨ state e = prev)) (rest : List E) :
    versionsFrom state prev (e :: rest) =
      { start := e
        members := e :: rest.takeWhile fun x ↦ state x = state e
        closedBy := rest.find? fun x ↦ state x ≠ state e } ::
          versionsFrom state (state e) rest := by
  rw [versionsFrom, if_neg h]

/-- Continuing a log does not move the start of a version. -/
@[simp] theorem extend_start (more : List E) (v : Version E) :
    (extend state more v).start = v.start := by
  unfold extend
  split <;> rfl

/-! ### Continuing a log -/

/-- **Continuing a log keeps the versions it already has.** -/
theorem versionsFrom_append (prev : Option S) (log more : List E) :
    versionsFrom state prev (log ++ more) =
      (versionsFrom state prev log).map (extend state more) ++
        versionsFrom state (lastState state prev log) more := by
  induction log generalizing prev with
  | nil => rfl
  | cons e rest ih =>
    rw [List.cons_append, lastState_cons]
    by_cases h : state e = none ∨ state e = prev
    · rw [versionsFrom_cons_of_keep h, versionsFrom_cons_of_keep h, ih]
    · rw [versionsFrom_cons_of_start h, versionsFrom_cons_of_start h, ih, List.map_cons,
        List.cons_append]
      congr 1
      rcases hfind : rest.find? (fun x ↦ decide (state x ≠ state e)) with - | c
      · -- nothing closes the version inside the log, so every event of it belongs to the version
        have hall : ∀ x ∈ rest, state x = state e := fun x hx ↦ by
          simpa using List.find?_eq_none.1 hfind x hx
        have htake : (rest.takeWhile fun x ↦ state x = state e) = rest :=
          List.takeWhile_eq_self_iff.2 fun x hx ↦ by simpa using hall x hx
        simp only [extend, hfind, List.find?_append, htake, Option.none_or, List.cons_append]
        rw [List.takeWhile_append_of_pos fun x hx ↦ by simpa using hall x hx]
      · obtain ⟨hc, pre, post, hsplit, hpre⟩ := List.find?_eq_some_iff_append.1 hfind
        have hstop : ∀ tail : List E,
            ((pre ++ c :: tail).takeWhile fun x ↦ state x = state e) = pre := fun tail ↦ by
          rw [List.takeWhile_append_of_pos fun x hx ↦ by simpa using hpre x hx]
          simp only [ne_eq, decide_not, Bool.not_eq_eq_eq_not, Bool.not_true,
            decide_eq_false_iff_not] at hc
          simp [hc]
        simp only [extend, hfind, List.find?_append, Option.some_or]
        rw [hsplit, List.append_assoc, List.cons_append, hstop, hstop]

/-- Continuing a whole log. -/
theorem versions_append (log more : List E) :
    versions state (log ++ more) =
      (versions state log).map (extend state more) ++
        versionsFrom state (lastState state none log) more :=
  versionsFrom_append none log more

/-! ### What a version is made of -/

/-- **A version begins inside the log**, and its events and its end are read off what follows. -/
theorem exists_split_of_mem {prev : Option S} {log : List E} {v : Version E}
    (hv : v ∈ versionsFrom state prev log) :
    ∃ pre post, log = pre ++ v.start :: post ∧ state v.start ≠ none ∧
      v.members = v.start :: post.takeWhile (fun x ↦ state x = state v.start) ∧
      v.closedBy = post.find? fun x ↦ state x ≠ state v.start := by
  induction log generalizing prev with
  | nil => cases hv
  | cons e rest ih =>
    have hlater : v ∈ versionsFrom state (state e) rest →
        ∃ pre post, e :: rest = pre ++ v.start :: post ∧ state v.start ≠ none ∧
          v.members = v.start :: post.takeWhile (fun x ↦ state x = state v.start) ∧
          v.closedBy = post.find? fun x ↦ state x ≠ state v.start := fun hv ↦ by
      obtain ⟨pre, post, hsplit, hparts⟩ := ih hv
      exact ⟨e :: pre, post, by rw [hsplit, List.cons_append], hparts⟩
    by_cases h : state e = none ∨ state e = prev
    · rw [versionsFrom_cons_of_keep h] at hv
      exact hlater hv
    · rw [versionsFrom_cons_of_start h] at hv
      rcases List.mem_cons.1 hv with rfl | hv
      · exact ⟨[], rest, rfl, fun hnone ↦ h (Or.inl hnone), rfl, rfl⟩
      · exact hlater hv

/-- A version starts with an event of the log that leaves the entity existing. -/
theorem start_mem_of_mem {prev : Option S} {log : List E} {v : Version E}
    (hv : v ∈ versionsFrom state prev log) : v.start ∈ log ∧ state v.start ≠ none := by
  obtain ⟨pre, post, rfl, hstate, -⟩ := exists_split_of_mem hv
  exact ⟨by simp, hstate⟩

/-- A version is closed by an event of the log. -/
theorem closedBy_mem_of_mem {prev : Option S} {log : List E} {v : Version E} {c : E}
    (hv : v ∈ versionsFrom state prev log) (hc : v.closedBy = some c) : c ∈ log := by
  obtain ⟨pre, post, rfl, -, -, hclosed⟩ := exists_split_of_mem hv
  have := List.mem_of_find?_eq_some (hclosed.symm.trans hc)
  simp [this]

variable (state) in
/-- The starts of the versions are events of the log, in order. -/
theorem map_start_sublist (prev : Option S) (log : List E) :
    ((versionsFrom state prev log).map fun v ↦ v.start).Sublist log := by
  induction log generalizing prev with
  | nil => exact List.Sublist.refl _
  | cons e rest ih =>
    by_cases h : state e = none ∨ state e = prev
    · rw [versionsFrom_cons_of_keep h]
      exact (ih _).cons e
    · rw [versionsFrom_cons_of_start h, List.map_cons]
      exact (ih _).cons_cons e

variable (state) in
/-- The first version starts with the first event that leaves the entity existing. -/
theorem head?_versions_map_start (log : List E) :
    ((versions state log).head?.map fun v ↦ v.start) = log.find? fun e ↦ state e ≠ none := by
  unfold versions
  induction log with
  | nil => rfl
  | cons e rest ih =>
    by_cases h : state e = none
    · rw [versionsFrom_cons_of_keep (Or.inl h), h, ih, List.find?_cons_of_neg (by simpa using h)]
    · rw [versionsFrom_cons_of_start (by simp [h]), List.find?_cons_of_pos (by simpa using h)]
      rfl

/-- A version that starts later than the state `prev` starts at or after the first event that leaves
another state. -/
theorem exists_leaving_of_mem {prev : Option S} {log : List E} {v : Version E}
    (hv : v ∈ versionsFrom state prev log) :
    ∃ pre c post, log = pre ++ c :: post ∧ log.find? (fun x ↦ state x ≠ prev) = some c ∧
      v.start ∈ c :: post := by
  induction log generalizing prev with
  | nil => cases hv
  | cons e rest ih =>
    by_cases he : state e = prev
    · rw [versionsFrom_cons_of_keep (Or.inr he), he] at hv
      obtain ⟨pre, c, post, hsplit, hfind, hmem⟩ := ih hv
      refine ⟨e :: pre, c, post, by rw [hsplit, List.cons_append], ?_, hmem⟩
      rw [List.find?_cons_of_neg (by simpa using he), hfind]
    · refine ⟨[], e, rest, rfl, ?_, (start_mem_of_mem hv).1⟩
      rw [List.find?_cons_of_pos (by simpa using he)]

/-- **Versions follow one another**: each but the last is closed at or before the next one
starts. -/
theorem versionsFrom_consecutive {K : Type*} [LinearOrder K] {time : E → K} {log : List E}
    (hsorted : log.Pairwise fun a b ↦ time a ≤ time b) (prev : Option S) :
    (versionsFrom state prev log).Pairwise fun v w ↦
      ∃ c, v.closedBy = some c ∧ time c ≤ time w.start := by
  induction log generalizing prev with
  | nil => exact List.Pairwise.nil
  | cons e rest ih =>
    rw [List.pairwise_cons] at hsorted
    by_cases h : state e = none ∨ state e = prev
    · rw [versionsFrom_cons_of_keep h]
      exact ih hsorted.2 _
    · rw [versionsFrom_cons_of_start h, List.pairwise_cons]
      refine ⟨fun w hw ↦ ?_, ih hsorted.2 _⟩
      obtain ⟨pre, c, post, hsplit, hfind, hmem⟩ := exists_leaving_of_mem hw
      have htail := (List.pairwise_append.1 (hsplit ▸ hsorted.2)).2.1
      refine ⟨c, hfind, ?_⟩
      rcases List.mem_cons.1 hmem with heq | hmem
      · rw [heq]
      · exact (List.pairwise_cons.1 htail).1 _ hmem

/-- **Where versions start**: at the events that leave the entity existing in a state it was not in
before. -/
theorem mem_map_start_iff {prev : Option S} {log : List E} {s : E} :
    s ∈ (versionsFrom state prev log).map (fun v ↦ v.start) ↔
      ∃ pre post, log = pre ++ s :: post ∧ state s ≠ none ∧
        state s ≠ lastState state prev pre := by
  induction log generalizing prev with
  | nil => simp [versionsFrom]
  | cons e rest ih =>
    have hlater : (∃ pre post, e :: rest = (e :: pre) ++ s :: post ∧ state s ≠ none ∧
        state s ≠ lastState state prev (e :: pre)) ↔
          s ∈ (versionsFrom state (state e) rest).map fun v ↦ v.start := by
      simp only [ih, List.cons_append, List.cons.injEq, true_and, lastState_cons]
    have hsplit : (∃ pre post, e :: rest = pre ++ s :: post ∧ state s ≠ none ∧
        state s ≠ lastState state prev pre) ↔
          (s = e ∧ state e ≠ none ∧ state e ≠ prev) ∨
            ∃ pre post, e :: rest = (e :: pre) ++ s :: post ∧ state s ≠ none ∧
              state s ≠ lastState state prev (e :: pre) := by
      constructor
      · rintro ⟨pre, post, heq, hsome, hne⟩
        rcases pre with - | ⟨x, pre⟩
        · obtain ⟨rfl, -⟩ := List.cons.inj heq
          exact Or.inl ⟨rfl, hsome, hne⟩
        · obtain ⟨rfl, -⟩ := List.cons.inj heq
          exact Or.inr ⟨pre, post, heq, hsome, hne⟩
      · rintro (⟨rfl, hsome, hne⟩ | ⟨pre, post, heq, hsome, hne⟩)
        · exact ⟨[], rest, rfl, hsome, hne⟩
        · exact ⟨e :: pre, post, heq, hsome, hne⟩
    rw [hsplit, hlater]
    by_cases h : state e = none ∨ state e = prev
    · rw [versionsFrom_cons_of_keep h, or_iff_right fun hstart ↦ h.elim hstart.2.1 hstart.2.2]
    · rw [versionsFrom_cons_of_start h, List.map_cons, List.mem_cons]
      rw [not_or] at h
      exact or_congr_left ⟨fun hs ↦ ⟨hs, h⟩, fun hs ↦ hs.1⟩

/-! ### Versions in a strict order -/

section Order

variable {K : Type*} [LinearOrder K] {key : E → K}

omit [DecidableEq S] in
/-- In a strictly sorted list, what follows an element is what is above it. -/
theorem mem_iff_lt_of_split {pre post : List E} {s x : E}
    (hsorted : (pre ++ s :: post).Pairwise fun a b ↦ key a < key b) :
    x ∈ post ↔ x ∈ pre ++ s :: post ∧ key s < key x := by
  rw [List.pairwise_append, List.pairwise_cons] at hsorted
  obtain ⟨-, ⟨hpost, -⟩, hpre⟩ := hsorted
  refine ⟨fun hx ↦ ⟨by simp [hx], hpost x hx⟩, fun ⟨hx, hlt⟩ ↦ ?_⟩
  rcases List.mem_append.1 hx with hx | hx
  · exact absurd hlt (hpre x hx s List.mem_cons_self).not_gt
  · rcases List.mem_cons.1 hx with rfl | hx
    · exact absurd hlt (lt_irrefl _)
    · exact hx

omit [DecidableEq S] in
/-- In a strictly sorted list, keys identify elements. -/
theorem eq_of_key_eq {l : List E} (hsorted : l.Pairwise fun a b ↦ key a < key b) {x y : E}
    (hx : x ∈ l) (hy : y ∈ l) (h : key x = key y) : x = y := by
  obtain ⟨pre, post, rfl⟩ := List.append_of_mem hx
  have hpre := (List.pairwise_append.1 hsorted).2.2
  rcases List.mem_append.1 hy with hmem | hmem
  · exact absurd h (hpre y hmem x List.mem_cons_self).ne'
  · rcases List.mem_cons.1 hmem with rfl | hmem
    · rfl
    · exact absurd h ((mem_iff_lt_of_split hsorted).1 hmem).2.ne

omit [DecidableEq S] in
/-- The greatest element of a strictly sorted list is its last. -/
theorem getLast?_eq_some_of_max {l : List E} (hsorted : l.Pairwise fun a b ↦ key a < key b) {x : E}
    (hx : x ∈ l) (hmax : ∀ y ∈ l, key y ≤ key x) : l.getLast? = some x := by
  obtain ⟨pre, post, rfl⟩ := List.append_of_mem hx
  cases post with
  | nil => rw [List.getLast?_concat]
  | cons y post =>
    have hlt : key x < key y := ((mem_iff_lt_of_split hsorted).1 List.mem_cons_self).2
    exact absurd hlt (hmax y (by simp)).not_gt

omit [DecidableEq S] in
/-- The longest prefix of a strictly sorted list with a property. -/
theorem mem_takeWhile_iff_of_sorted {p : E → Bool} {l : List E} {x : E}
    (hsorted : l.Pairwise fun a b ↦ key a < key b) :
    x ∈ l.takeWhile p ↔ x ∈ l ∧ ∀ y ∈ l, key y ≤ key x → p y = true := by
  induction l with
  | nil => simp
  | cons z rest ih =>
    rw [List.pairwise_cons] at hsorted
    by_cases hz : p z = true
    · rw [List.takeWhile_cons_of_pos hz, List.mem_cons, List.mem_cons, ih hsorted.2]
      constructor
      · rintro (rfl | ⟨hx, hall⟩)
        · refine ⟨Or.inl rfl, fun y hy hle ↦ ?_⟩
          rcases List.mem_cons.1 hy with rfl | hy
          · exact hz
          · exact absurd hle (hsorted.1 y hy).not_ge
        · refine ⟨Or.inr hx, fun y hy hle ↦ ?_⟩
          rcases List.mem_cons.1 hy with rfl | hy
          · exact hz
          · exact hall y hy hle
      · rintro ⟨rfl | hx, hall⟩
        · exact Or.inl rfl
        · exact Or.inr ⟨hx, fun y hy ↦ hall y (List.mem_cons_of_mem _ hy)⟩
    · rw [List.takeWhile_cons_of_neg hz]
      refine ⟨fun hx ↦ absurd hx List.not_mem_nil, fun ⟨hx, hall⟩ ↦ absurd ?_ hz⟩
      refine hall z List.mem_cons_self ?_
      rcases List.mem_cons.1 hx with rfl | hx
      · exact le_rfl
      · exact (hsorted.1 x hx).le

omit [DecidableEq S] in
/-- The first element of a strictly sorted list with a property. -/
theorem find?_eq_some_iff_of_sorted {p : E → Bool} {l : List E} {x : E}
    (hsorted : l.Pairwise fun a b ↦ key a < key b) :
    l.find? p = some x ↔ x ∈ l ∧ p x = true ∧ ∀ y ∈ l, key y < key x → p y = false := by
  induction l with
  | nil => simp
  | cons z rest ih =>
    rw [List.pairwise_cons] at hsorted
    by_cases hz : p z = true
    · rw [List.find?_cons_of_pos hz]
      refine ⟨fun h ↦ ?_, fun ⟨hx, hpx, hall⟩ ↦ ?_⟩
      · obtain rfl := Option.some.inj h
        refine ⟨List.mem_cons_self, hz, fun y hy hlt ↦ ?_⟩
        rcases List.mem_cons.1 hy with rfl | hy
        · exact absurd hlt (lt_irrefl _)
        · exact absurd hlt (hsorted.1 y hy).not_gt
      · rcases List.mem_cons.1 hx with rfl | hx
        · rfl
        · exact absurd hz (by simpa using hall z List.mem_cons_self (hsorted.1 x hx))
    · rw [List.find?_cons_of_neg hz, ih hsorted.2]
      constructor
      · rintro ⟨hx, hpx, hall⟩
        refine ⟨List.mem_cons_of_mem _ hx, hpx, fun y hy hlt ↦ ?_⟩
        rcases List.mem_cons.1 hy with rfl | hy
        · simpa using hz
        · exact hall y hy hlt
      · rintro ⟨hx, hpx, hall⟩
        rcases List.mem_cons.1 hx with rfl | hx
        · exact absurd hpx hz
        · exact ⟨hx, hpx, fun y hy ↦ hall y (List.mem_cons_of_mem _ hy)⟩

variable {prev : Option S} {log : List E} {v : Version E}

/-- **The events of a version** are those from its start on up to which nothing has left another
state. -/
theorem mem_members_iff (hsorted : log.Pairwise fun a b ↦ key a < key b)
    (hv : v ∈ versionsFrom state prev log) {x : E} :
    x ∈ v.members ↔ x ∈ log ∧ key v.start ≤ key x ∧
      ∀ y ∈ log, key v.start ≤ key y → key y ≤ key x → state y = state v.start := by
  obtain ⟨pre, post, rfl, -, hmembers, -⟩ := exists_split_of_mem hv
  have hpost := fun y ↦ mem_iff_lt_of_split (x := y) hsorted
  have hinj : ∀ y ∈ pre ++ v.start :: post, key y = key v.start → y = v.start := fun y hy heq ↦
    eq_of_key_eq hsorted hy (by simp) heq
  rw [hmembers, List.mem_cons, mem_takeWhile_iff_of_sorted (List.pairwise_cons.1
    (List.pairwise_append.1 hsorted).2.1).2, hpost]
  constructor
  · rintro (rfl | ⟨⟨hx, hlt⟩, hall⟩)
    · exact ⟨by simp, le_rfl, fun y hy hge hle ↦ by rw [hinj y hy (le_antisymm hle hge)]⟩
    · refine ⟨hx, hlt.le, fun y hy hge hle ↦ ?_⟩
      rcases hge.lt_or_eq with hgt | heq
      · simpa using hall y ((hpost y).2 ⟨hy, hgt⟩) hle
      · rw [hinj y hy heq.symm]
  · rintro ⟨hx, hge, hall⟩
    rcases hge.lt_or_eq with hlt | heq
    · refine Or.inr ⟨⟨hx, hlt⟩, fun y hy hle ↦ ?_⟩
      obtain ⟨hy, hgt⟩ := (hpost y).1 hy
      simpa using hall y hy hgt.le hle
    · exact Or.inl (hinj x hx heq.symm)

/-- **The event that closes a version** is the first later one that leaves another state. -/
theorem closedBy_eq_some_iff (hsorted : log.Pairwise fun a b ↦ key a < key b)
    (hv : v ∈ versionsFrom state prev log) {c : E} :
    v.closedBy = some c ↔ c ∈ log ∧ key v.start < key c ∧ state c ≠ state v.start ∧
      ∀ y ∈ log, key v.start < key y → key y < key c → state y = state v.start := by
  obtain ⟨pre, post, rfl, -, -, hclosed⟩ := exists_split_of_mem hv
  have hpost := fun y ↦ mem_iff_lt_of_split (x := y) hsorted
  rw [hclosed, find?_eq_some_iff_of_sorted (List.pairwise_cons.1
    (List.pairwise_append.1 hsorted).2.1).2, hpost]
  simp only [ne_eq, decide_not, Bool.not_eq_eq_eq_not, Bool.not_true, decide_eq_false_iff_not,
    Bool.not_false, decide_eq_true_eq]
  constructor
  · rintro ⟨⟨hc, hlt⟩, hne, hall⟩
    exact ⟨hc, hlt, hne, fun y hy hgt hyc ↦ hall y ((hpost y).2 ⟨hy, hgt⟩) hyc⟩
  · rintro ⟨hc, hlt, hne, hall⟩
    refine ⟨⟨hc, hlt⟩, hne, fun y hy hyc ↦ ?_⟩
    obtain ⟨hy, hgt⟩ := (hpost y).1 hy
    exact hall y hy hgt hyc

/-- **The event a version starts with**, among the events of the log: the entity exists, and the
previous event left it in another state. -/
theorem mem_map_start_iff_of_sorted (hsorted : log.Pairwise fun a b ↦ key a < key b) {s : E} :
    s ∈ (versions state log).map (fun v ↦ v.start) ↔ s ∈ log ∧ state s ≠ none ∧
      ∀ p ∈ log, key p < key s → (∀ x ∈ log, key x < key s → key x ≤ key p) →
        state p ≠ state s := by
  rw [versions, mem_map_start_iff]
  have hlast : ∀ pre post, log = pre ++ s :: post → state s ≠ none →
      (state s ≠ lastState state none pre ↔
        ∀ p ∈ log, key p < key s → (∀ x ∈ log, key x < key s → key x ≤ key p) →
          state p ≠ state s) := by
    rintro pre post rfl hsome
    have hpre := (List.pairwise_append.1 hsorted).2.2
    have hbefore : ∀ x ∈ pre ++ s :: post, key x < key s → x ∈ pre := by
      intro x hx hlt
      rcases List.mem_append.1 hx with hx | hx
      · exact hx
      · rcases List.mem_cons.1 hx with rfl | hx
        · exact absurd hlt (lt_irrefl _)
        · exact absurd hlt ((mem_iff_lt_of_split hsorted).1 hx).2.not_gt
    -- before the first event there is no state; else its predecessor has it
    rcases List.eq_nil_or_concat pre with rfl | ⟨init, q, rfl⟩
    · exact iff_of_true hsome fun p hp hlt _ ↦ absurd (hbefore p hp hlt) List.not_mem_nil
    · have hq : q ∈ init.concat q := by simp
      have hstate : lastState state none (init.concat q) = state q := by simp [lastState]
      have hmax : ∀ x ∈ init.concat q, key x ≤ key q := by
        intro x hx
        have hinit := (List.pairwise_append.1 hsorted).1
        rw [List.concat_eq_append, List.pairwise_append] at hinit
        rw [List.concat_eq_append, List.mem_append, List.mem_singleton] at hx
        rcases hx with hx | rfl
        · exact (hinit.2.2 x hx q List.mem_cons_self).le
        · exact le_rfl
      rw [hstate]
      constructor
      · intro hne p hp hlt hprev
        have hpq : key p = key q := le_antisymm (hmax p (hbefore p hp hlt))
          (hprev q (List.mem_append_left _ hq) (hpre q hq s List.mem_cons_self))
        rw [eq_of_key_eq hsorted hp (List.mem_append_left _ hq) hpq]
        exact hne.symm
      · intro hall heq
        refine hall q (List.mem_append_left _ hq) (hpre q hq s List.mem_cons_self)
          (fun x hx hlt ↦ hmax x (hbefore x hx hlt)) heq.symm
  constructor
  · rintro ⟨pre, post, hsplit, hsome, hne⟩
    exact ⟨by simp [hsplit], hsome, (hlast pre post hsplit hsome).1 hne⟩
  · rintro ⟨hs, hsome, hall⟩
    obtain ⟨pre, post, hsplit⟩ := List.append_of_mem hs
    exact ⟨pre, post, hsplit, hsome, (hlast pre post hsplit hsome).2 hall⟩

/-- The first version is the one nothing that left the entity existing comes before. -/
theorem index_eq_zero_iff (hsorted : log.Pairwise fun a b ↦ key a < key b) {i : ℕ}
    (hv : (versions state log)[i]? = some v) :
    i = 0 ↔ ∀ p ∈ log, key p < key v.start → state p = none := by
  have hstarts := hsorted.sublist (map_start_sublist state none log)
  rw [List.pairwise_map] at hstarts
  constructor
  · rintro rfl
    have hfind := head?_versions_map_start state log
    rw [List.head?_eq_getElem?, hv, Option.map_some, eq_comm,
      find?_eq_some_iff_of_sorted hsorted] at hfind
    exact fun p hp hlt ↦ by simpa using hfind.2.2 p hp hlt
  · intro hnone
    by_contra hi
    obtain ⟨hlt, hget⟩ := List.getElem?_eq_some_iff.1 hv
    have hzero : 0 < (versions state log).length := (Nat.zero_le i).trans_lt hlt
    have hfirst : key (versions state log)[0].start < key (versions state log)[i].start :=
      List.pairwise_iff_getElem.1 hstarts 0 i hzero hlt (Nat.pos_of_ne_zero hi)
    obtain ⟨hmem, hsome⟩ := start_mem_of_mem (List.getElem_mem hzero)
    rw [hget] at hfirst
    exact hsome (hnone _ hmem hfirst)

end Order

/-! ### The open version -/

/-- The versions nothing has closed yet. -/
def openVersions (vs : List (Version E)) : List (Version E) :=
  vs.filter fun v ↦ v.closedBy.isNone

variable (state) in
/-- The open versions of a log read after `prev`: none when the log leaves the state it began in
throughout or leaves no entity, and otherwise one, in the state the log leaves. -/
theorem openVersions_versionsFrom (prev : Option S) (log : List E) :
    (lastState state prev log = none → openVersions (versionsFrom state prev log) = []) ∧
      ((∀ e ∈ log, state e = prev) → openVersions (versionsFrom state prev log) = []) ∧
      (lastState state prev log ≠ none → (∃ e ∈ log, state e ≠ prev) →
        ∃ v, openVersions (versionsFrom state prev log) = [v] ∧
          state v.start = lastState state prev log) := by
  induction log generalizing prev with
  | nil => simp [openVersions, versionsFrom]
  | cons e rest ih =>
    obtain ⟨ihNone, ihSame, ihOpen⟩ := ih (state e)
    rw [lastState_cons]
    -- the event keeps the state, or starts a version
    by_cases h : state e = none ∨ state e = prev
    · rw [versionsFrom_cons_of_keep h]
      refine ⟨ihNone, fun hsame ↦ ihSame fun x hx ↦ ?_, fun hlast hchange ↦ ihOpen hlast ?_⟩
      · rw [hsame x (List.mem_cons_of_mem _ hx), hsame e List.mem_cons_self]
      · -- the change is in the rest: at `e` the state was kept, or the entity left and came back
        by_contra hno
        have hconst : ∀ x ∈ rest, state x = state e := fun x hx ↦ by
          by_contra hne
          exact hno ⟨x, hx, hne⟩
        have hlastE : lastState state (state e) rest = state e := lastState_of_const hconst
        rcases h with hnone | heq
        · exact hlast (hlastE.trans hnone)
        · obtain ⟨x, hx, hne⟩ := hchange
          rcases List.mem_cons.1 hx with rfl | hx
          · exact hne heq
          · exact hne ((hconst x hx).trans heq)
    · rw [versionsFrom_cons_of_start h]
      have hsome : state e ≠ none := fun hnone ↦ h (Or.inl hnone)
      -- it stays open while no later event has another state
      by_cases hconst : ∀ x ∈ rest, state x = state e
      · -- the version started at `e` is the open one
        have hfind : rest.find? (fun x ↦ decide (state x ≠ state e)) = none :=
          List.find?_eq_none.2 fun x hx ↦ by simpa using hconst x hx
        have hlastE : lastState state (state e) rest = state e := lastState_of_const hconst
        have hrest : openVersions (versionsFrom state (state e) rest) = [] := ihSame hconst
        unfold openVersions at hrest ⊢
        refine ⟨fun hlast ↦ absurd (hlastE.symm.trans hlast) hsome,
          fun hsame ↦ absurd (Or.inr (hsame e List.mem_cons_self)) h, fun _ _ ↦ ?_⟩
        exact ⟨_, by rw [List.filter_cons, if_pos (by rw [hfind]; rfl), hrest], hlastE.symm⟩
      · have hchange : ∃ x ∈ rest, state x ≠ state e := by
          by_contra hno
          exact hconst fun x hx ↦ by
            by_contra hne
            exact hno ⟨x, hx, hne⟩
        have hfind : (rest.find? (fun x ↦ decide (state x ≠ state e))).isNone = false := by
          obtain ⟨x, hx, hne⟩ := hchange
          rw [Option.isNone_eq_false_iff, List.find?_isSome]
          exact ⟨x, hx, by simpa using hne⟩
        unfold openVersions at ihNone ihOpen ⊢
        rw [List.filter_cons, if_neg (by rw [hfind]; exact Bool.false_ne_true)]
        exact ⟨ihNone, fun hsame ↦ absurd (Or.inr (hsame e List.mem_cons_self)) h,
          fun hlast _ ↦ ihOpen hlast hchange⟩

variable (state) in
/-- **A log leaves one open version when the entity exists, and none otherwise.** -/
theorem open_versions_eq (log : List E) :
    (lastState state none log = none → openVersions (versions state log) = []) ∧
      (lastState state none log ≠ none → ∃ v, openVersions (versions state log) = [v] ∧
        state v.start = lastState state none log) := by
  obtain ⟨hnone, -, hopen⟩ := openVersions_versionsFrom state none log
  refine ⟨hnone, fun hlast ↦ hopen hlast ?_⟩
  cases hl : log.getLast? with
  | none => simp [lastState, hl] at hlast
  | some e => exact ⟨e, List.mem_of_getLast? hl, by simpa [lastState, hl] using hlast⟩

/-! ### The start of the open version -/

variable (state) in
/-- The start held after one more event: the event takes the entity away, keeps its state, or enters
a state itself. -/
def enter (held : Option E) (e : E) : Option E :=
  if state e = none then none
  else if held.bind state = state e then held
  else some e

variable (state) in
/-- The event with which a log entered the state it leaves. -/
def lastStart (log : List E) : Option E :=
  log.foldl (enter state) none

/-- A delete leaves nothing to hold. -/
theorem enter_of_none {held : Option E} {e : E} (he : state e = none) :
    enter state held e = none :=
  if_pos he

/-- An event that keeps the state keeps the start. -/
theorem enter_of_keep {held : Option E} {e : E} (he : state e ≠ none)
    (hkeep : held.bind state = state e) : enter state held e = held := by
  rw [enter, if_neg he, if_pos hkeep]

/-- An event that enters a state is the new start. -/
theorem enter_of_start {held : Option E} {e : E} (he : state e ≠ none)
    (hstart : held.bind state ≠ state e) : enter state held e = some e := by
  rw [enter, if_neg he, if_neg hstart]

/-- One more event at the end of a log. -/
theorem lastStart_concat (log : List E) (e : E) :
    lastStart state (log ++ [e]) = enter state (lastStart state log) e := by
  rw [lastStart, List.foldl_append]
  rfl

/-- A version that is open stays so as long as its state is kept. -/
theorem openVersions_map_extend (vs : List (Version E)) (e : E) :
    openVersions (vs.map (extend state [e])) =
      ((openVersions vs).filter fun v ↦ state v.start = state e).map (extend state [e]) := by
  rw [openVersions, openVersions, List.filter_map, List.filter_filter]
  congr 1
  refine List.filter_congr fun v _ ↦ ?_
  show (extend state [e] v).closedBy.isNone = _
  unfold extend
  split
  · rename_i c hc
    simp [hc]
  · rename_i hc
    by_cases hkeep : state e = state v.start <;> simp [hc, hkeep, Ne.symm]

variable (state) in
/-- **The open version starts where the log entered the state it leaves.** -/
theorem map_start_openVersions (log : List E) :
    (openVersions (versions state log)).map (fun v ↦ v.start) = (lastStart state log).toList ∧
      (lastStart state log).bind state = lastState state none log := by
  induction log using List.reverseRecOn with
  | nil => exact ⟨rfl, rfl⟩
  | append_singleton init e ih =>
    obtain ⟨ih, hheld⟩ := ih
    have hlast : lastState state none (init ++ [e]) = state e := by simp [lastState]
    have hstarts : (openVersions (versions state (init ++ [e]))).map (fun v ↦ v.start) =
        ((lastStart state init).toList.filter fun s ↦ state s = state e) ++
          (openVersions (versionsFrom state ((lastStart state init).bind state) [e])).map
            fun v ↦ v.start := by
      rw [versions_append, ← hheld, ← ih, List.filter_map, openVersions, List.filter_append,
        List.map_append]
      show (openVersions _).map _ ++ _ = _
      rw [openVersions_map_extend, List.map_map]
      congr 1
      exact List.map_congr_left fun v _ ↦ extend_start [e] v
    rw [hstarts, hlast, lastStart_concat]
    -- the entity ends, keeps its state, or starts a new version
    by_cases he : state e = none
    · -- a held start has a state, so none is kept
      rw [enter_of_none he, versionsFrom_cons_of_keep (Or.inl he)]
      refine ⟨?_, he.symm⟩
      have hnil : ((lastStart state init).toList.filter fun s ↦ state s = state e) = [] := by
        rw [← ih, List.filter_eq_nil_iff]
        intro s hs
        obtain ⟨v, hv, rfl⟩ := List.mem_map.1 hs
        have hsome := (start_mem_of_mem (List.mem_filter.1 hv).1).2
        rw [he]
        exact fun hnone ↦ hsome (of_decide_eq_true hnone)
      rw [hnil]
      rfl
    · by_cases hkeep : (lastStart state init).bind state = state e
      · rw [enter_of_keep he hkeep, versionsFrom_cons_of_keep (Or.inr hkeep.symm)]
        refine ⟨?_, hkeep⟩
        rcases hs : lastStart state init with - | s
        · rfl
        · rw [hs] at hkeep
          simpa [openVersions, versionsFrom] using hkeep
      · rw [enter_of_start he hkeep, versionsFrom_cons_of_start (not_or.2 ⟨he, Ne.symm hkeep⟩)]
        refine ⟨?_, rfl⟩
        rcases hs : lastStart state init with - | s
        · rfl
        · rw [hs] at hkeep
          have hne : state s ≠ state e := hkeep
          simp [openVersions, versionsFrom, hne]

/-- The open version is in the state the log leaves. -/
theorem state_of_lastStart {log : List E} {s : E} (h : lastStart state log = some s) :
    s ∈ log ∧ state s = lastState state none log := by
  obtain ⟨hstart, hstate⟩ := map_start_openVersions state log
  rw [h] at hstart hstate
  have hmem : s ∈ (openVersions (versions state log)).map fun v ↦ v.start := by
    rw [hstart]
    exact List.mem_singleton_self s
  obtain ⟨v, hv, rfl⟩ := List.mem_map.1 hmem
  exact ⟨(start_mem_of_mem (List.mem_filter.1 hv).1).1, hstate⟩

/-- A log without an open version leaves no entity. -/
theorem lastStart_eq_none_iff {log : List E} :
    lastStart state log = none ↔ lastState state none log = none := by
  obtain ⟨hstart, hstate⟩ := map_start_openVersions state log
  constructor
  · intro hnone
    rw [← hstate, hnone]
    rfl
  · intro hlast
    rw [(open_versions_eq state log).1 hlast, List.map_nil] at hstart
    exact Option.toList_eq_nil_iff.1 hstart.symm

/-! ### Logs with repeated events -/

/-- The second log is the first one with events repeated in place. -/
inductive Repeats {E : Type*} : List E → List E → Prop
  | nil : Repeats [] []
  | cons (e : E) {log more : List E} : Repeats log more → Repeats (e :: log) (e :: more)
  | again (e : E) {log more : List E} : Repeats (e :: log) more → Repeats (e :: log) (e :: more)

/-- Two versions differ in repeated events only. -/
structure Version.Same (v w : Version E) : Prop where
  /-- They start with the same event. -/
  start : v.start = w.start
  /-- They have the same events, up to repetition. -/
  members : Repeats v.members w.members
  /-- They are closed by the same event. -/
  closedBy : v.closedBy = w.closedBy

omit [DecidableEq S] in
/-- A prefix with a property repeats the prefix. -/
theorem Repeats.takeWhile {log more : List E} (h : Repeats log more) (p : E → Bool) :
    Repeats (log.takeWhile p) (more.takeWhile p) := by
  induction h with
  | nil => exact Repeats.nil
  | cons e h ih =>
    by_cases he : p e = true
    · rw [List.takeWhile_cons_of_pos he, List.takeWhile_cons_of_pos he]
      exact ih.cons e
    · rw [List.takeWhile_cons_of_neg he, List.takeWhile_cons_of_neg he]
      exact Repeats.nil
  | again e h ih =>
    by_cases he : p e = true
    · rw [List.takeWhile_cons_of_pos he] at ih ⊢
      rw [List.takeWhile_cons_of_pos he]
      exact ih.again e
    · rw [List.takeWhile_cons_of_neg he, List.takeWhile_cons_of_neg he]
      exact Repeats.nil

omit [DecidableEq S] in
/-- Repetitions do not change the first event with a property. -/
theorem Repeats.find? {log more : List E} (h : Repeats log more) (p : E → Bool) :
    log.find? p = more.find? p := by
  induction h with
  | nil => rfl
  | cons e h ih =>
    by_cases he : p e = true
    · rw [List.find?_cons_of_pos he, List.find?_cons_of_pos he]
    · rw [List.find?_cons_of_neg he, List.find?_cons_of_neg he, ih]
  | again e h ih =>
    by_cases he : p e = true
    · rw [List.find?_cons_of_pos he, List.find?_cons_of_pos he]
    · rw [List.find?_cons_of_neg he] at ih ⊢
      rw [List.find?_cons_of_neg he, ih]

variable (state) in
/-- **Repeating events in place repeats them in their versions** and changes nothing else. -/
theorem Repeats.versionsFrom {log more : List E} (h : Repeats log more) (prev : Option S) :
    List.Forall₂ Version.Same (versionsFrom state prev log) (versionsFrom state prev more) := by
  induction h generalizing prev with
  | nil => exact List.Forall₂.nil
  | cons e h ih =>
    by_cases he : state e = none ∨ state e = prev
    · rw [versionsFrom_cons_of_keep he, versionsFrom_cons_of_keep he]
      exact ih _
    · rw [versionsFrom_cons_of_start he, versionsFrom_cons_of_start he]
      exact List.Forall₂.cons ⟨rfl, (h.takeWhile _).cons e, h.find? _⟩ (ih _)
  | again e h ih =>
    rename_i rest more
    -- the event in front keeps the state the repeated one leaves
    have hkeep : state e = none ∨ state e = state e := Or.inr rfl
    have hrest := ih (state e)
    rw [versionsFrom_cons_of_keep hkeep] at hrest
    by_cases he : state e = none ∨ state e = prev
    · rw [versionsFrom_cons_of_keep he, versionsFrom_cons_of_keep he]
      exact hrest
    · rw [versionsFrom_cons_of_start he, versionsFrom_cons_of_start he]
      refine List.Forall₂.cons ⟨rfl, ?_, ?_⟩ hrest
      · have htake := h.takeWhile fun x ↦ state x = state e
        rw [List.takeWhile_cons_of_pos (by simp)] at htake
        exact htake.again e
      · have hfind := h.find? fun x ↦ state x ≠ state e
        rw [List.find?_cons_of_neg (by simp)] at hfind
        exact hfind

omit [DecidableEq S] in
/-- In a sorted log in which events that tie are equal, equal events stand together. -/
theorem repeats_dedup [DecidableEq E] {K : Type*} [LinearOrder K] {key : E → K} {log : List E}
    (hsorted : log.Pairwise fun a b ↦ key a ≤ key b)
    (hties : ∀ a ∈ log, ∀ b ∈ log, key a = key b → a = b) : Repeats log.dedup log := by
  induction log with
  | nil => exact Repeats.nil
  | cons e rest ih =>
    rw [List.pairwise_cons] at hsorted
    have hrest := ih hsorted.2 fun a ha b hb ↦
      hties a (List.mem_cons_of_mem _ ha) b (List.mem_cons_of_mem _ hb)
    by_cases he : e ∈ rest
    · rw [List.dedup_cons_of_mem he]
      -- what stands between two equal events ties with them
      rcases rest with - | ⟨x, rest⟩
      · cases he
      · have hx : e = x := by
          refine hties e List.mem_cons_self x (by simp)
            ((hsorted.1 x List.mem_cons_self).antisymm ?_)
          rcases List.mem_cons.1 he with rfl | he
          · exact le_rfl
          · exact (List.pairwise_cons.1 hsorted.2).1 e he
        obtain rfl := hx
        rcases hdedup : (e :: rest).dedup with - | ⟨y, tail⟩
        · have hmem : e ∈ (e :: rest).dedup := List.mem_dedup.2 List.mem_cons_self
          rw [hdedup] at hmem
          cases hmem
        · rw [hdedup] at hrest
          have hy : y = e := by
            rcases hrest with - | ⟨_, -⟩ | ⟨_, -⟩
            · rfl
            · rfl
          rw [hy] at hrest ⊢
          exact hrest.again e
    · rw [List.dedup_cons_of_notMem he]
      exact hrest.cons e

omit [DecidableEq S] in
/-- Sorted logs with the same events, in which events that tie are equal, differ in repetitions
only. -/
theorem dedup_eq_of_sorted [DecidableEq E] {K : Type*} [LinearOrder K] {key : E → K}
    {log more : List E} (hlog : log.Pairwise fun a b ↦ key a ≤ key b)
    (hmore : more.Pairwise fun a b ↦ key a ≤ key b)
    (hties : ∀ a ∈ log, ∀ b ∈ log, key a = key b → a = b) (hmem : ∀ e, e ∈ log ↔ e ∈ more) :
    log.dedup = more.dedup := by
  have hperm : log.dedup.Perm more.dedup := by
    rw [List.perm_ext_iff_of_nodup (List.nodup_dedup _) (List.nodup_dedup _)]
    intro e
    rw [List.mem_dedup, List.mem_dedup, hmem]
  refine hperm.eq_of_pairwise (fun a b ha hb hab hba ↦ ?_)
    (hlog.sublist (List.dedup_sublist _)) (hmore.sublist (List.dedup_sublist _))
  exact hties a (List.mem_dedup.1 ha) b ((hmem b).2 (List.mem_dedup.1 hb)) (hab.antisymm hba)

/-- A version read through a function of the events. -/
def Version.map {E' : Type*} (f : E → E') (v : Version E) : Version E' where
  start := f v.start
  members := v.members.map f
  closedBy := v.closedBy.map f

/-- Reading the events through a function that keeps their states. -/
theorem versionsFrom_map {E' : Type*} {f : E → E'} {state' : E' → Option S}
    (hstate : ∀ e, state' (f e) = state e) (prev : Option S) (log : List E) :
    Timeline.versionsFrom state' prev (log.map f) =
      (Timeline.versionsFrom state prev log).map (Version.map f) := by
  induction log generalizing prev with
  | nil => rfl
  | cons e rest ih =>
    by_cases h : state e = none ∨ state e = prev
    · have h' : state' (f e) = none ∨ state' (f e) = prev := by rwa [hstate]
      rw [List.map_cons, versionsFrom_cons_of_keep h, versionsFrom_cons_of_keep h', ih, hstate]
    · have h' : ¬(state' (f e) = none ∨ state' (f e) = prev) := by rwa [hstate]
      rw [List.map_cons, versionsFrom_cons_of_start h, versionsFrom_cons_of_start h', ih,
        List.map_cons, hstate]
      congr 1
      simp only [Version.map, List.map_cons, List.takeWhile_map, List.find?_map, Function.comp_def,
        hstate]

/-! ### A log that leaves no entity -/

/-- Where no version starts, the first event that leaves another state ends the entity. -/
theorem state_eq_none_of_versionsFrom_eq_nil {prev : Option S} {log : List E}
    (hnil : versionsFrom state prev log = []) {c : E}
    (hc : log.find? (fun x ↦ state x ≠ prev) = some c) : state c = none := by
  induction log generalizing prev with
  | nil => cases hc
  | cons e rest ih =>
    by_cases he : state e = prev
    · rw [versionsFrom_cons_of_keep (Or.inr he), he] at hnil
      rw [List.find?_cons_of_neg (by simpa using he)] at hc
      exact ih hnil hc
    · rw [List.find?_cons_of_pos (by simpa using he)] at hc
      obtain rfl := Option.some.inj hc
      by_contra hsome
      rw [versionsFrom_cons_of_start (not_or.2 ⟨hsome, he⟩)] at hnil
      cases hnil

/-- **A log that leaves no entity has closed a version by ending it**, if it has a version at
all. -/
theorem exists_closedBy_end {prev : Option S} {log : List E}
    (hlast : lastState state prev log = none) (hne : versionsFrom state prev log ≠ []) :
    ∃ v ∈ versionsFrom state prev log, ∃ c, v.closedBy = some c ∧ state c = none := by
  induction log generalizing prev with
  | nil => exact absurd rfl hne
  | cons e rest ih =>
    rw [lastState_cons] at hlast
    by_cases h : state e = none ∨ state e = prev
    · rw [versionsFrom_cons_of_keep h] at hne ⊢
      exact ih hlast hne
    · rw [versionsFrom_cons_of_start h]
      by_cases hrest : versionsFrom state (state e) rest = []
      · refine ⟨_, List.mem_cons_self, ?_⟩
        rcases hfind : rest.find? (fun x ↦ state x ≠ state e) with - | c
        · -- nothing leaves the state of `e`, which is not the last one
          have hall : ∀ x ∈ rest, state x = state e := fun x hx ↦ by
            simpa using List.find?_eq_none.1 hfind x hx
          have hkept : lastState state (state e) rest = state e := by
            rcases hget : rest.getLast? with - | x
            · rw [lastState, hget, Option.map_none, Option.getD_none]
            · rw [lastState, hget, Option.map_some, Option.getD_some]
              exact hall x (List.mem_of_getLast? hget)
          exact absurd (Or.inl (hkept.symm.trans hlast)) h
        · exact ⟨c, rfl, state_eq_none_of_versionsFrom_eq_nil hrest hfind⟩
      · obtain ⟨v, hv, hclosed⟩ := ih hlast hrest
        exact ⟨v, List.mem_cons_of_mem _ hv, hclosed⟩

/-! ### Versions in time -/

section Time

variable {T : Type*} [LinearOrder T] (time : E → T)

/-- The half-open range of a version contains `t`. -/
def Version.Covers (v : Version E) (t : T) : Prop :=
  time v.start ≤ t ∧ ∀ c, v.closedBy = some c → t < time c

instance (v : Version E) (t : T) : Decidable (v.Covers time t) :=
  inferInstanceAs (Decidable (_ ∧ ∀ c, v.closedBy = some c → t < time c))

variable {time}

omit [DecidableEq S] in
/-- In a sorted log the events at or before `t` come first. -/
theorem exists_split_at {log : List E} (hsorted : log.Pairwise fun a b ↦ time a ≤ time b) (t : T) :
    ∃ early late, log = early ++ late ∧ (∀ e ∈ early, time e ≤ t) ∧ (∀ e ∈ late, t < time e) ∧
      (log.filter fun e ↦ time e ≤ t) = early := by
  induction log with
  | nil => exact ⟨[], [], rfl, by simp, by simp, rfl⟩
  | cons e rest ih =>
    rw [List.pairwise_cons] at hsorted
    by_cases he : time e ≤ t
    · obtain ⟨early, late, rfl, hearly, hlate, hfilter⟩ := ih hsorted.2
      refine ⟨e :: early, late, rfl, ?_, hlate, by simp [he, hfilter]⟩
      intro x hx
      rcases List.mem_cons.1 hx with rfl | hx
      · exact he
      · exact hearly x hx
    · have hlate : ∀ x ∈ e :: rest, t < time x := fun x hx ↦ by
        rcases List.mem_cons.1 hx with rfl | hx
        · exact lt_of_not_ge he
        · exact (lt_of_not_ge he).trans_le (hsorted.1 x hx)
      exact ⟨[], e :: rest, rfl, by simp, hlate,
        List.filter_eq_nil_iff.2 fun x hx ↦ by simpa using hlate x hx⟩

variable (state) in
/-- **The versions that cover `t`** are the ones open after the events at or before `t`. -/
theorem covering_versions_eq {log : List E}
    (hsorted : log.Pairwise fun a b ↦ time a ≤ time b) (t : T) :
    ∃ more, ((versions state log).filter fun v ↦ v.Covers time t) =
      (openVersions (versions state (log.filter fun e ↦ time e ≤ t))).map (extend state more) := by
  obtain ⟨early, late, rfl, hearly, hlate, hfilter⟩ := exists_split_at hsorted t
  refine ⟨late, ?_⟩
  rw [hfilter, versions_append, List.filter_append]
  have hnew : ((versionsFrom state (lastState state none early) late).filter
      fun v ↦ v.Covers time t) = [] :=
    List.filter_eq_nil_iff.2 fun v hv ↦ by
      simpa using fun hcov : v.Covers time t ↦
        absurd hcov.1 (not_le_of_gt (hlate _ (start_mem_of_mem hv).1))
  rw [hnew, List.append_nil, List.filter_map, openVersions]
  congr 1
  refine List.filter_congr fun v hv ↦ ?_
  have hstart : time v.start ≤ t := hearly _ (start_mem_of_mem hv).1
  rcases hclosed : v.closedBy with - | c
  · have hcov : (extend state late v).Covers time t := by
      refine ⟨by rwa [extend_start], fun c hc ↦ hlate c ?_⟩
      rw [extend, hclosed] at hc
      exact List.mem_of_find?_eq_some hc
    simp [hcov]
  · have hncov : ¬ (extend state late v).Covers time t := fun hcov ↦ by
      have hlt := hcov.2 c (by rw [extend, hclosed]; exact hclosed)
      exact absurd (hearly c (closedBy_mem_of_mem hv hclosed)) (not_le_of_gt hlt)
    simp [hncov]

variable (state) in
/-- **The state at an instant.** After the last event at or before `t`, at most one version covers
`t`: none when that event leaves no entity, and otherwise one, in that event's state. -/
theorem covering_versions_spec {log : List E}
    (hsorted : log.Pairwise fun a b ↦ time a ≤ time b) (t : T) :
    (lastState state none (log.filter fun e ↦ time e ≤ t) = none →
        ((versions state log).filter fun v ↦ v.Covers time t) = []) ∧
      (lastState state none (log.filter fun e ↦ time e ≤ t) ≠ none →
        ∃ v, ((versions state log).filter fun v ↦ v.Covers time t) = [v] ∧
          state v.start = lastState state none (log.filter fun e ↦ time e ≤ t)) := by
  obtain ⟨more, hcov⟩ := covering_versions_eq state hsorted t
  obtain ⟨hnone, hopen⟩ := open_versions_eq state (log.filter fun e ↦ time e ≤ t)
  rw [hcov]
  refine ⟨fun h ↦ by rw [hnone h, List.map_nil], fun h ↦ ?_⟩
  obtain ⟨v, hv, hstate⟩ := hopen h
  exact ⟨extend state more v, by rw [hv, List.map_singleton], by rw [extend_start, hstate]⟩

end Time

end Timeline
