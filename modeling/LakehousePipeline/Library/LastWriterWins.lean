import Mathlib.Data.List.Induction
import Mathlib.Order.Lattice

/-!
# Last writer wins

A log of entries stamped with a linearly ordered sequence; the newest entry decides. `newest` reads
the log left to right and replaces the entry it holds by a strictly newer one, so among entries with
one stamp the first stays. Where the stamps identify the entries, the result is a property of the
set of entries (`newest_eq_some_iff`), and order and repetition of the log do not matter.

A log that is cut into parts can be read part by part: the newest of the newest entries of the parts
is the newest entry (`isNewest_flatten`). With `newest_eq_some_iff` this makes the register
independent of how entries are batched, reordered or sent again.
-/

namespace LastWriterWins

variable {E K : Type*} [LinearOrder K] (stamp : E → K)

/-- The entry held after one more entry. -/
def write (held : Option E) (e : E) : Option E :=
  match held with
  | none => some e
  | some h => if stamp h < stamp e then some e else some h

/-- The newest entry of a log. -/
def newest (log : List E) : Option E :=
  log.foldl (write stamp) none

/-- The entry is in the log and none is newer. -/
def IsNewest (log : List E) (e : E) : Prop :=
  e ∈ log ∧ ∀ x ∈ log, stamp x ≤ stamp e

/-- Entries with one stamp are the same entry. -/
def StampsIdentify (log : List E) : Prop :=
  ∀ x ∈ log, ∀ y ∈ log, stamp x = stamp y → x = y

variable {stamp}

/-- A newer entry replaces the one that is held. -/
theorem write_of_lt {h e : E} (hlt : stamp h < stamp e) : write stamp (some h) e = some e :=
  if_pos hlt

/-- Any other is dropped. -/
theorem write_of_ge {h e : E} (hge : stamp e ≤ stamp h) : write stamp (some h) e = some h :=
  if_neg hge.not_gt

@[simp] theorem newest_nil : newest stamp ([] : List E) = none := rfl

/-- One more entry is one more write. -/
theorem newest_concat (log : List E) (e : E) :
    newest stamp (log ++ [e]) = write stamp (newest stamp log) e := by
  rw [newest, List.foldl_append]
  rfl

/-- The newest entry of a log that goes on: what the first part holds, after the newest of the
rest. -/
theorem newest_append (log log' : List E) :
    newest stamp (log ++ log') =
      (newest stamp log').elim (newest stamp log) (write stamp (newest stamp log)) := by
  induction log' using List.reverseRecOn with
  | nil =>
    rw [List.append_nil]
    rfl
  | append_singleton init e ih =>
    rw [← List.append_assoc, newest_concat, newest_concat, ih]
    rcases newest stamp init with - | h
    · rfl
    · rcases newest stamp log with - | x
      · show write stamp (some h) e = _
        rcases lt_or_ge (stamp h) (stamp e) with hlt | hge
        · rw [write_of_lt hlt]
          rfl
        · rw [write_of_ge hge]
          rfl
      · show write stamp (write stamp (some x) h) e = _
        rcases lt_or_ge (stamp h) (stamp e) with hlt | hge
        · -- the last entry replaces what is held, old or new
          rcases lt_or_ge (stamp x) (stamp h) with hxh | hhx
          · rw [write_of_lt hxh, write_of_lt hlt]
            exact (write_of_lt (hxh.trans hlt)).symm
          · rw [write_of_ge hhx, write_of_lt hlt]
            rfl
        · rcases lt_or_ge (stamp x) (stamp h) with hxh | hhx
          · rw [write_of_lt hxh, write_of_ge hge]
            exact (write_of_lt hxh).symm
          · rw [write_of_ge hhx, write_of_ge (hge.trans hhx), write_of_ge hge]
            exact (write_of_ge hhx).symm

/-- Only an empty log has no newest entry. -/
theorem newest_eq_none_iff {log : List E} : newest stamp log = none ↔ log = [] := by
  rcases List.eq_nil_or_concat log with rfl | ⟨init, e, rfl⟩
  · simp
  · rw [List.concat_eq_append, newest_concat]
    refine ⟨fun h ↦ ?_, fun h ↦ by simp at h⟩
    unfold write at h
    split at h
    · cases h
    · split at h <;> cases h

variable (stamp) in
/-- A log with an entry has a newest one. -/
theorem exists_newest_of_mem {log : List E} {e : E} (he : e ∈ log) :
    ∃ x, newest stamp log = some x := by
  have hne : newest stamp log ≠ none := fun hnone ↦
    List.ne_nil_of_mem he (newest_eq_none_iff.1 hnone)
  exact Option.ne_none_iff_exists'.1 hne

/-- What `newest` returns is a newest entry. -/
theorem isNewest_of_newest {log : List E} {e : E} (h : newest stamp log = some e) :
    IsNewest stamp log e := by
  induction log using List.reverseRecOn generalizing e with
  | nil => cases h
  | append_singleton init x ih =>
    rw [newest_concat] at h
    cases hheld : newest stamp init with
    | none =>
      rw [hheld] at h
      obtain rfl := Option.some.inj h
      rw [newest_eq_none_iff.1 hheld]
      simp [IsNewest]
    | some held =>
      obtain ⟨hmem, hmax⟩ := ih hheld
      rw [hheld, write] at h
      split at h
      · rename_i hlt
        obtain rfl := Option.some.inj h
        refine ⟨by simp, fun y hy ↦ ?_⟩
        rcases List.mem_append.1 hy with hy | hy
        · exact (hmax y hy).trans hlt.le
        · rw [List.mem_singleton.1 hy]
      · rename_i hnlt
        obtain rfl := Option.some.inj h
        refine ⟨by simp [hmem], fun y hy ↦ ?_⟩
        rcases List.mem_append.1 hy with hy | hy
        · exact hmax y hy
        · rw [List.mem_singleton.1 hy]
          exact le_of_not_gt hnlt

/-- **The newest entry is a property of the set of entries.** -/
theorem newest_eq_some_iff {log : List E} (hstamps : StampsIdentify stamp log) {e : E} :
    newest stamp log = some e ↔ IsNewest stamp log e := by
  refine ⟨isNewest_of_newest, fun ⟨hmem, hmax⟩ ↦ ?_⟩
  obtain ⟨x, hx⟩ := exists_newest_of_mem stamp hmem
  obtain ⟨hxmem, hxmax⟩ := isNewest_of_newest hx
  rw [hx, hstamps x hxmem e hmem (le_antisymm (hmax x hxmem) (hxmax e hmem))]

/-- Where stamps identify the entries there is one newest entry. -/
theorem eq_of_isNewest {log : List E} (hstamps : StampsIdentify stamp log) {x y : E}
    (hx : IsNewest stamp log x) (hy : IsNewest stamp log y) : x = y :=
  hstamps x hx.1 y hy.1 (le_antisymm (hy.2 x hx.1) (hx.2 y hy.1))

omit [LinearOrder K] in
/-- Fewer entries are still identified. -/
theorem StampsIdentify.mono {log log' : List E} (h : StampsIdentify stamp log')
    (hsub : log ⊆ log') : StampsIdentify stamp log :=
  fun x hx y hy ↦ h x (hsub hx) y (hsub hy)

/-- The newest of the newest entries of several logs is the newest entry of all of them. -/
theorem isNewest_flatten {logs : List (List E)} {e : E}
    (h : newest stamp (logs.filterMap fun log ↦ newest stamp log) = some e) :
    IsNewest stamp logs.flatten e := by
  obtain ⟨hmem, hmax⟩ := isNewest_of_newest h
  obtain ⟨log, hlog, he⟩ := List.mem_filterMap.1 hmem
  refine ⟨List.mem_flatten.2 ⟨log, hlog, (isNewest_of_newest he).1⟩, fun x hx ↦ ?_⟩
  obtain ⟨log', hlog', hx⟩ := List.mem_flatten.1 hx
  obtain ⟨y, hy⟩ := exists_newest_of_mem stamp hx
  exact ((isNewest_of_newest hy).2 x hx).trans (hmax y (List.mem_filterMap.2 ⟨log', hlog', hy⟩))

variable (stamp) in
/-- An entry in one of the parts is enough for a newest one. -/
theorem exists_newest_flatten {logs : List (List E)} {e : E} (he : e ∈ logs.flatten) :
    ∃ x, newest stamp (logs.filterMap fun log ↦ newest stamp log) = some x := by
  obtain ⟨log, hlog, he⟩ := List.mem_flatten.1 he
  obtain ⟨y, hy⟩ := exists_newest_of_mem stamp he
  exact exists_newest_of_mem stamp (List.mem_filterMap.2 ⟨log, hlog, hy⟩)

end LastWriterWins
