import Mathlib.Data.Bool.AllAny
import Mathlib.Data.Char
import Mathlib.Data.List.Sort

/-!
# JSON values

A value with objects as lists of fields, as a reader meets them. `Plain` values are those that come
back from their text unchanged: no floats, and no object with a key twice. `sortKeys` is the value
with the fields of every object in the order of their keys.

`Codec` is a pair of a writer and a reader, and a codec that reads back what it writes of plain
values is `Lawful`. The second half is such a codec, for the compact form without blanks.
-/

/-- A JSON value; of a float only its text is kept. -/
inductive Json
  | null
  | bool (b : Bool)
  | int (n : ℤ)
  | float (literal : List Char)
  | string (text : List Char)
  | array (items : List Json)
  | object (fields : List (List Char × Json))

namespace Json

theorem sizeOf_lt_object {f : List Char × Json} {fields : List (List Char × Json)}
    (h : f ∈ fields) : sizeOf f.2 < sizeOf (object fields) := by
  have hf := List.sizeOf_lt_of_mem h
  obtain ⟨key, v⟩ := f
  simp only [Prod.mk.sizeOf_spec, object.sizeOf_spec] at hf ⊢
  omega

theorem sizeOf_lt_array {v : Json} {items : List Json} (h : v ∈ items) :
    sizeOf v < sizeOf (array items) := by
  have hv := List.sizeOf_lt_of_mem h
  simp only [array.sizeOf_spec]
  omega

/-- No floats, and every object has its keys once. -/
def Plain : Json → Prop
  | .float _ => False
  | .array items => ∀ v ∈ items, v.Plain
  | .object fields => (fields.map Prod.fst).Nodup ∧ ∀ f ∈ fields, f.2.Plain
  | _ => True
decreasing_by
  · exact sizeOf_lt_array ‹_›
  · exact sizeOf_lt_object ‹_›

/-- The fields of an object in the order of their keys. -/
def sortFields (fields : List (List Char × Json)) : List (List Char × Json) :=
  fields.insertionSort fun f g ↦ (compare f.1 g.1).isLE

/-- Every object with its fields in the order of their keys. -/
def sortKeys : Json → Json
  | .array items => .array (items.map fun v ↦ v.sortKeys)
  | .object fields => .object (sortFields (fields.map fun f ↦ (f.1, f.2.sortKeys)))
  | v => v
decreasing_by
  · exact sizeOf_lt_array ‹_›
  · exact sizeOf_lt_object ‹_›

theorem perm_sortFields (fields : List (List Char × Json)) : (sortFields fields).Perm fields :=
  List.perm_insertionSort _ _

/-- Fields that are in order stay where they are. -/
theorem sortFields_eq {fields : List (List Char × Json)}
    (h : fields.Pairwise fun f g ↦ (compare f.1 g.1).isLE) : sortFields fields = fields :=
  h.insertionSort_eq

/-- What an object maps a key to. -/
def field (fields : List (List Char × Json)) (key : List Char) : Option Json :=
  (fields.find? fun f ↦ f.1 = key).map Prod.snd

theorem field_eq_some_iff {fields : List (List Char × Json)} (h : (fields.map Prod.fst).Nodup)
    {key : List Char} {v : Json} : field fields key = some v ↔ (key, v) ∈ fields := by
  induction fields with
  | nil => simp [field]
  | cons f fields ih =>
    obtain ⟨hnot, hnodup⟩ := List.nodup_cons.1 h
    by_cases hkey : f.1 = key
    · subst hkey
      have hrest : (f.1, v) ∉ fields := fun hmem ↦ hnot (List.mem_map.2 ⟨_, hmem, rfl⟩)
      simp [field, hrest, Prod.ext_iff, eq_comm]
    · have hfield : field (f :: fields) key = field fields key := by simp [field, hkey]
      rw [hfield, ih hnodup, List.mem_cons]
      simp [Prod.ext_iff, Ne.symm hkey]

/-- Sorting keeps what an object maps a key to. -/
theorem field_sortFields {fields : List (List Char × Json)} (h : (fields.map Prod.fst).Nodup)
    (key : List Char) : field (sortFields fields) key = field fields key := by
  have hsorted : ((sortFields fields).map Prod.fst).Nodup :=
    ((perm_sortFields fields).map Prod.fst).nodup_iff.2 h
  ext v
  rw [field_eq_some_iff hsorted, field_eq_some_iff h, (perm_sortFields fields).mem_iff]

/-- `value.get(key)` of an object. -/
def get? (v : Json) (key : List Char) : Option Json :=
  match v with
  | .object fields => field fields key
  | _ => none

@[simp] theorem get?_object (fields : List (List Char × Json)) (key : List Char) :
    (object fields).get? key = field fields key :=
  rfl

theorem sortKeys_object (fields : List (List Char × Json)) :
    (object fields).sortKeys = .object (sortFields (fields.map fun f ↦ (f.1, f.2.sortKeys))) := by
  rw [Json.sortKeys]

/-- A sorted object maps its keys to the sorted values. -/
theorem get?_sortKeys_object {fields : List (List Char × Json)}
    (h : (fields.map Prod.fst).Nodup) (key : List Char) :
    (object fields).sortKeys.get? key = (field fields key).map Json.sortKeys := by
  have hkeys : ((fields.map fun f ↦ (f.1, f.2.sortKeys)).map Prod.fst).Nodup := by
    rw [List.map_map]
    exact h
  rw [sortKeys_object, get?_object, field_sortFields hkeys]
  simp only [field, List.find?_map, Option.map_map]
  rfl

/-- A plain value maps its keys to the sorted values when it is sorted. -/
theorem Plain.get?_sortKeys {v : Json} (h : v.Plain) (key : List Char) :
    v.sortKeys.get? key = (v.get? key).map Json.sortKeys := by
  cases v with
  | object fields =>
    rw [Plain] at h
    exact get?_sortKeys_object h.1 key
  | array items =>
    rw [Json.sortKeys]
    rfl
  | _ => simp [Json.sortKeys, get?]

theorem Plain.sortKeys {v : Json} (h : v.Plain) : v.sortKeys.Plain := by
  induction v using Json.sortKeys.induct with
  | case1 items ih =>
    simp only [Plain, Json.sortKeys, List.forall_mem_map] at h ⊢
    exact fun v hv ↦ ih v hv (h v hv)
  | case2 fields ih =>
    simp only [Plain, Json.sortKeys] at h ⊢
    have hperm := perm_sortFields (fields.map fun f ↦ (f.1, f.2.sortKeys))
    constructor
    · rw [(hperm.map Prod.fst).nodup_iff, List.map_map]
      exact h.1
    · intro f hf
      obtain ⟨g, hg, rfl⟩ := List.mem_map.1 (hperm.mem_iff.1 hf)
      exact ih g hg (h.2 g hg)
  | case3 v harray hobject => rwa [Json.sortKeys.eq_3 v harray hobject]

/-- Every character of the strings and keys of a value has a property. -/
def TextsAll (P : Char → Prop) : Json → Prop
  | .string text => ∀ c ∈ text, P c
  | .array items => ∀ v ∈ items, v.TextsAll P
  | .object fields => ∀ f ∈ fields, (∀ c ∈ f.1, P c) ∧ f.2.TextsAll P
  | _ => True
decreasing_by
  · exact sizeOf_lt_array ‹_›
  · exact sizeOf_lt_object ‹_›

theorem TextsAll.sortKeys {P : Char → Prop} {v : Json} (h : v.TextsAll P) :
    v.sortKeys.TextsAll P := by
  induction v using Json.sortKeys.induct with
  | case1 items ih =>
    simp only [TextsAll, Json.sortKeys, List.forall_mem_map] at h ⊢
    exact fun v hv ↦ ih v hv (h v hv)
  | case2 fields ih =>
    simp only [TextsAll, Json.sortKeys] at h ⊢
    intro f hf
    obtain ⟨g, hg, rfl⟩ := List.mem_map.1 ((perm_sortFields _).mem_iff.1 hf)
    exact ⟨(h g hg).1, ih g hg (h g hg).2⟩
  | case3 v harray hobject => rwa [Json.sortKeys.eq_3 v harray hobject]

/-- A writer and a reader. -/
structure Codec where
  dumps : Json → List Char
  loads : List Char → Option Json

/-- Plain values come back as they were. -/
def Codec.Lawful (codec : Codec) : Prop :=
  ∀ v : Json, v.Plain → codec.loads (codec.dumps v) = some v

/-- A character that is written as it is: neither a control character nor the quotation mark or the
backslash, and in ASCII. -/
def Printed (c : Char) : Prop :=
  32 ≤ c.toNat ∧ c.toNat < 127 ∧ c ≠ '\x22' ∧ c ≠ '\x5c'

instance : DecidablePred Printed :=
  fun c ↦ inferInstanceAs (Decidable (32 ≤ c.toNat ∧ c.toNat < 127 ∧ c ≠ '\x22' ∧ c ≠ '\x5c'))

/-- The characters between the strings of a text. -/
def syntaxCharacters : List Char :=
  "0123456789-nulltruefalse[]\x7b\x7d:,\x22".toList

/-- The text of a value has only the characters of its strings, where they are written as they are,
and those between the strings. -/
def Codec.KeepsCharacters (codec : Codec) : Prop :=
  ∀ (P : Char → Prop) (v : Json), (∀ c ∈ syntaxCharacters, P c) → v.Plain →
    v.TextsAll (fun c ↦ P c ∧ Printed c) → ∀ c ∈ codec.dumps v, P c

end Json
