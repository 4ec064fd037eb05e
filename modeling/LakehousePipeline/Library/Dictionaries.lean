import Mathlib.Data.List.Sort

/-!
# Maps and the lists of their items

Where a map is written as the list of its items and read from such a list, the map that is read is
the one that was written (`ofList_toList`); from any list, each item of the map is one of the list
(`mem_of_getElem?_ofList`).
-/

namespace Dictionaries

open Std

variable {κ α β : Type} [Ord κ] [TransOrd κ] [LawfulEqOrd κ]

/-- What is inserted last is what the map has, or it has been there before. -/
theorem mem_of_getElem?_insertMany {l : List (κ × α)} {d : ExtTreeMap κ α} {k : κ} {a : α}
    (h : (d.insertMany l)[k]? = some a) : (k, a) ∈ l ∨ d[k]? = some a := by
  induction l generalizing d with
  | nil => exact Or.inr h
  | cons item l ih =>
    rw [ExtTreeMap.insertMany_cons] at h
    rcases ih h with hmem | hd
    · exact Or.inl (List.mem_cons_of_mem _ hmem)
    · rw [ExtTreeMap.getElem?_insert] at hd
      split at hd
      · rename_i heq
        obtain rfl := LawfulEqCmp.eq_of_compare heq
        obtain rfl := Option.some.inj hd
        exact Or.inl List.mem_cons_self
      · exact Or.inr hd

/-- The items of a map read from a list are items of the list. -/
theorem mem_of_getElem?_ofList {l : List (κ × α)} {k : κ} {a : α}
    (h : (ExtTreeMap.ofList l)[k]? = some a) : (k, a) ∈ l := by
  rw [ExtTreeMap.ofList_eq_insertMany_empty] at h
  exact (mem_of_getElem?_insertMany h).resolve_right (by simp)

omit [LawfulEqOrd κ] in
/-- The keys of a map are distinct, whatever becomes of the values. -/
theorem pairwise_toList_map (d : ExtTreeMap κ α) (f : κ → α → β) :
    (d.toList.map fun item ↦ (item.1, f item.1 item.2)).Pairwise
      fun a b ↦ ¬compare a.1 b.1 = .eq :=
  List.pairwise_map.2 ExtTreeMap.distinct_keys_toList

/-- A map read from the items of another with their values changed. -/
theorem getElem?_ofList_toList_map (d : ExtTreeMap κ α) (f : κ → α → β) (k : κ) :
    (ExtTreeMap.ofList (d.toList.map fun item ↦ (item.1, f item.1 item.2)))[k]? =
      d[k]?.map (f k) := by
  ext b
  constructor
  · intro h
    obtain ⟨item, hitem, heq⟩ := List.mem_map.1 (mem_of_getElem?_ofList h)
    obtain ⟨rfl, rfl⟩ := Prod.ext_iff.1 heq
    rw [ExtTreeMap.mem_toList_iff_getElem?_eq_some.1 hitem]
    rfl
  · intro h
    obtain ⟨a, ha, rfl⟩ := Option.map_eq_some_iff.1 h
    have hmem := ExtTreeMap.mem_toList_iff_getElem?_eq_some.2 ha
    exact ExtTreeMap.getElem?_ofList_of_mem ReflCmp.compare_self (pairwise_toList_map d f)
      (List.mem_map.2 ⟨_, hmem, rfl⟩)

/-- A map is read back from its items. -/
theorem ofList_toList (d : ExtTreeMap κ α) : ExtTreeMap.ofList d.toList = d := by
  refine ExtTreeMap.ext_getElem? fun k ↦ ?_
  simpa using getElem?_ofList_toList_map d (fun _ a ↦ a) k

/-- What a map made of the elements of a list has of an element. -/
theorem getElem?_ofList_map {ι : Type} {is : List ι} {key : ι → κ} (hkeys : (is.map key).Nodup)
    (f : ι → α) {i : ι} (hi : i ∈ is) :
    (ExtTreeMap.ofList (is.map fun i ↦ (key i, f i)))[key i]? = some (f i) := by
  have hdistinct : (is.map fun i ↦ (key i, f i)).Pairwise fun a b ↦ ¬compare a.1 b.1 = .eq :=
    List.pairwise_map.2 ((List.pairwise_map.1 hkeys).imp fun {i j} hne heq ↦
      hne (LawfulEqCmp.eq_of_compare heq))
  exact ExtTreeMap.getElem?_ofList_of_mem ReflCmp.compare_self hdistinct
    (List.mem_map.2 ⟨i, hi, rfl⟩)

end Dictionaries
