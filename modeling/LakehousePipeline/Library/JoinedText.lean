import Mathlib.Data.List.Chain
import Mathlib.Data.List.Infix

/-!
# Lists joined by a separator

What `separator.join(parts)` tells about the parts. Where the separator is a single symbol that the
parts do not have, it tells everything (`List.splitOn_intercalate`); this is the case of paths, and
the first half reads off when one path lies inside another. Where the separator is one symbol
written twice and the parts are free, another list of as many parts may be joined to the same list;
the second half says for exactly which parts it may not (`forall_intercalate_eq_iff`).

With a doubled separator a join can be cut otherwise where a part has a separator in it, or where a
part ends or begins with one of its symbols: `a|` and `b` give `a|||b`, and so do `a` and `|b`. The
condition is about neighbours (`KeptApart`), as a symbol at the outer end of the first or the last
part touches no separator. Lists of other lengths are not excluded, and one part may always be read
where two were joined.
-/

namespace JoinedText

variable {α : Type*}

/-- Two joins with a separator between them are one join. -/
theorem intercalate_append {s : List α} {xs ys : List (List α)} (hxs : xs ≠ []) (hys : ys ≠ []) :
    s.intercalate (xs ++ ys) = s.intercalate xs ++ s ++ s.intercalate ys := by
  induction xs with
  | nil => exact absurd rfl hxs
  | cons x xs ih =>
    cases xs with
    | nil => simpa using List.intercalate_cons_of_ne_nil hys
    | cons x' xs =>
      have ih := ih (List.cons_ne_nil _ _)
      rw [List.cons_append] at ih
      simp [ih]

/-! ### Paths -/

section Paths

variable [DecidableEq α] {c : α}

/-- The path `p` lies inside the path `q`: it goes on after `q` and a separator. -/
def Inside (c : α) (p q : List α) : Prop :=
  q ++ [c] <+: p

/-- Inside another path is where the parts of the other path are followed by more. -/
theorem inside_iff {p q : List α} :
    Inside c p q ↔ ∃ rest, rest ≠ [] ∧ p.splitOn c = q.splitOn c ++ rest := by
  constructor
  · rintro ⟨rest, rfl⟩
    refine ⟨rest.splitOn c, List.splitOn_ne_nil _ _, ?_⟩
    rw [List.append_assoc, List.singleton_append, List.splitOn_append_cons_self]
  · rintro ⟨rest, hrest, h⟩
    have hp : [c].intercalate (p.splitOn c) = p := List.intercalate_splitOn c
    rw [h, intercalate_append (List.splitOn_ne_nil _ _) hrest, List.intercalate_splitOn] at hp
    exact ⟨_, hp⟩

/-- The parts of a path under a root: those of the root, then its own. -/
theorem splitOn_intercalate_cons (root : List α) {ps : List (List α)} (hps : ∀ p ∈ ps, c ∉ p) :
    ([c].intercalate (root :: ps)).splitOn c = root.splitOn c ++ ps := by
  by_cases h : ps = []
  · simp [h]
  · rw [List.intercalate_cons_of_ne_nil h, List.append_assoc, List.singleton_append,
      List.splitOn_append_cons_self, List.splitOn_intercalate c hps h]

/-- Paths under one root are the same when their parts are. -/
theorem intercalate_cons_inj (root : List α) {ps qs : List (List α)} (hps : ∀ p ∈ ps, c ∉ p)
    (hqs : ∀ q ∈ qs, c ∉ q) :
    [c].intercalate (root :: ps) = [c].intercalate (root :: qs) ↔ ps = qs := by
  constructor
  · intro h
    have hsplit := congrArg (List.splitOn c) h
    rw [splitOn_intercalate_cons root hps, splitOn_intercalate_cons root hqs] at hsplit
    exact List.append_cancel_left hsplit
  · rintro rfl
    rfl

/-- Of two paths under one root, one lies inside the other when its parts go on. -/
theorem inside_intercalate_cons (root : List α) {ps qs : List (List α)} (hps : ∀ p ∈ ps, c ∉ p)
    (hqs : ∀ q ∈ qs, c ∉ q) :
    Inside c ([c].intercalate (root :: ps)) ([c].intercalate (root :: qs)) ↔
      ∃ rest, rest ≠ [] ∧ ps = qs ++ rest := by
  simp only [inside_iff, splitOn_intercalate_cons root hps, splitOn_intercalate_cons root hqs,
    List.append_assoc, List.append_cancel_left_eq]

end Paths

/-! ### A doubled separator -/

section Doubled

variable {c : α}

/-- A join depends on two neighbours through their own join only. -/
theorem intercalate_congr {s p q p' q' : List α} (h : p ++ s ++ q = p' ++ s ++ q')
    (before after : List (List α)) :
    s.intercalate (before ++ p :: q :: after) = s.intercalate (before ++ p' :: q' :: after) := by
  have hpair : s.intercalate (p :: q :: after) = s.intercalate (p' :: q' :: after) := by
    cases after with
    | nil => simpa using h
    | cons x after =>
      rw [List.intercalate_cons_cons, List.intercalate_cons_cons, List.intercalate_cons_cons,
        List.intercalate_cons_cons, ← List.append_assoc, ← List.append_assoc, ← List.append_assoc,
        ← List.append_assoc, h]
  cases before with
  | nil => exact hpair
  | cons x before =>
    rw [intercalate_append (List.cons_ne_nil _ _) (List.cons_ne_nil _ _), hpair,
      ← intercalate_append (List.cons_ne_nil _ _) (List.cons_ne_nil _ _)]

/-- Neighbours between which nothing but their separator can be taken for one: no separator lies in
them, and none of their symbols forms one together with it. -/
structure KeptApart (c : α) (p q : List α) : Prop where
  not_infix_left : ¬[c, c] <:+: p
  not_suffix_left : ¬[c] <:+ p
  not_infix_right : ¬[c, c] <:+: q
  not_prefix_right : ¬[c] <+: q

/-- Where the first part of a join is free of separators and does not end in one of their symbols,
another way to cut it takes its first cut there, one symbol later, or further on in the rest. -/
theorem cut_cases {x y A B : List α} (hwithin : ¬[c, c] <:+: x) (hsuffix : ¬[c] <:+ x)
    (h : x ++ [c, c] ++ A = y ++ [c, c] ++ B) :
    (x = y ∧ A = B) ∨ A = c :: B ∨ ∃ t, A = t ++ [c, c] ++ B := by
  rw [List.append_assoc, List.append_assoc, List.append_eq_append_iff] at h
  rcases h with ⟨t, rfl, h⟩ | ⟨t, rfl, h⟩
  · rcases t with - | ⟨a, - | ⟨b, t⟩⟩
    · exact Or.inl ⟨by simp, by simpa using h⟩
    · exact Or.inr (Or.inl (by simp_all))
    · exact Or.inr (Or.inr ⟨t, by simp_all⟩)
  · rcases t with - | ⟨a, - | ⟨b, t⟩⟩
    · exact Or.inl ⟨by simp, by simpa using h.symm⟩
    · obtain rfl : a = c := by simp_all
      exact absurd (List.suffix_append y [a]) hsuffix
    · obtain ⟨rfl, rfl, -⟩ : c = a ∧ c = b ∧ _ := by simpa using h
      exact absurd ⟨y, t, by simp⟩ hwithin

/-- A list of parts that cannot be cut otherwise: no part has a separator, and no neighbours touch
it with its own symbol. -/
structure Clean (c : α) (xs : List (List α)) : Prop where
  not_infix : ∀ x ∈ xs, ¬[c, c] <:+: x
  isChain : xs.IsChain fun p q ↦ ¬[c] <:+ p ∧ ¬[c] <+: q

/-- The rest of clean parts is clean. -/
theorem Clean.tail {x : List α} {xs : List (List α)} (h : Clean c (x :: xs)) : Clean c xs :=
  ⟨fun y hy ↦ h.not_infix y (List.mem_cons_of_mem _ hy), h.isChain.tail⟩

/-- Any other parts with the join of clean ones are fewer. The second half is about a join that
begins one symbol late, as after a first cut that is one symbol late. -/
theorem Clean.length_lt : ∀ {xs : List (List α)}, Clean c xs →
    (∀ ys, ys ≠ [] → [c, c].intercalate xs = [c, c].intercalate ys → xs ≠ [] →
      ys = xs ∨ ys.length < xs.length) ∧
    (∀ ys, ys ≠ [] → [c, c].intercalate xs = c :: [c, c].intercalate ys →
      (∀ x ∈ xs.head?, ¬[c] <+: x) → ys.length < xs.length)
  | [], _ => by simp
  | [x], h => by
    refine ⟨fun ys hys heq _ ↦ ?_, fun ys _ heq hhead ↦ ?_⟩
    · rcases ys with - | ⟨y, - | ⟨y', ys⟩⟩
      · exact absurd rfl hys
      · exact Or.inl (by simpa using heq.symm)
      · refine absurd ?_ (h.not_infix x (List.mem_singleton_self x))
        rw [List.intercalate_singleton, List.intercalate_cons_cons] at heq
        exact ⟨_, _, heq.symm⟩
    · rw [List.intercalate_singleton] at heq
      exact absurd ⟨_, heq.symm⟩ (hhead x rfl)
  | x :: x' :: xs, h => by
    obtain ⟨ihSame, ihLate⟩ := Clean.length_lt h.tail
    have hchain := (List.isChain_cons_cons.1 h.isChain).1
    have hhead : ∀ z ∈ (x' :: xs).head?, ¬[c] <+: z := by
      intro z hz
      obtain rfl : x' = z := by simpa using hz
      exact hchain.2
    -- a join of the rest that begins with any part more is one of fewer parts
    have hmore : ∀ t ys, ys ≠ [] →
        [c, c].intercalate (x' :: xs) = t ++ [c, c] ++ [c, c].intercalate ys →
        ys.length < (x' :: xs).length := by
      intro t ys hys heq
      rw [← List.intercalate_cons_of_ne_nil hys] at heq
      rcases ihSame _ (List.cons_ne_nil t ys) heq (List.cons_ne_nil _ _) with hsame | hlt
      · exact hsame ▸ Nat.lt_succ_self _
      · exact Nat.lt_of_succ_lt hlt
    refine ⟨fun ys hys heq _ ↦ ?_, fun ys hys heq hnot ↦ ?_⟩
    · obtain ⟨y, ys, rfl⟩ := List.exists_cons_of_ne_nil hys
      by_cases hnil : ys = []
      · exact Or.inr (by simp [hnil])
      rw [List.intercalate_cons_cons, List.intercalate_cons_of_ne_nil hnil] at heq
      rcases cut_cases (h.not_infix x List.mem_cons_self) hchain.1 heq with
        ⟨rfl, hrest⟩ | hlate | ⟨t, hrest⟩
      · rcases ihSame ys hnil hrest (List.cons_ne_nil _ _) with rfl | hlt
        · exact Or.inl rfl
        · exact Or.inr (Nat.succ_lt_succ hlt)
      · exact Or.inr (Nat.succ_lt_succ (ihLate ys hnil hlate hhead))
      · exact Or.inr (Nat.succ_lt_succ (hmore t ys hnil hrest))
    · obtain ⟨y, ys, rfl⟩ := List.exists_cons_of_ne_nil hys
      by_cases hnil : ys = []
      · simp [hnil]
      -- the first part is empty, so that the join begins with its separator
      obtain rfl : x = [] := by
        rcases x with - | ⟨a, x⟩
        · rfl
        · obtain rfl : a = c := by simp_all
          exact absurd ⟨x, rfl⟩ (hnot _ rfl)
      rw [List.intercalate_cons_cons, List.intercalate_cons_of_ne_nil hnil] at heq
      rcases y with - | ⟨a, y⟩
      · exact Nat.succ_lt_succ (ihLate ys hnil (by simpa using heq) hhead)
      · obtain ⟨-, heq⟩ : c = a ∧ _ := by simpa using heq
        exact Nat.succ_lt_succ (hmore y ys hnil (by simpa using heq))

/-- Parts that are kept apart pairwise are clean. -/
theorem KeptApart.clean {xs : List (List α)} (h : xs.IsChain (KeptApart c)) (hlen : 2 ≤ xs.length) :
    Clean c xs where
  not_infix := by
    induction xs with
    | nil => simp
    | cons x xs ih =>
      obtain ⟨x', xs, rfl⟩ := List.exists_cons_of_length_pos (Nat.lt_of_succ_lt_succ hlen)
      obtain ⟨hxx', hrest⟩ := List.isChain_cons_cons.1 h
      refine List.forall_mem_cons.2 ⟨hxx'.not_infix_left, ?_⟩
      cases xs with
      | nil => exact fun y hy ↦ List.mem_singleton.1 hy ▸ hxx'.not_infix_right
      | cons x'' xs => exact ih hrest (by simp)
  isChain := h.imp fun _ _ hpq ↦ ⟨hpq.not_suffix_left, hpq.not_prefix_right⟩

/-- A list is the only one of its length with its join exactly if all neighbours are kept apart. -/
theorem forall_intercalate_eq_iff (xs : List (List α)) :
    (∀ ys, ys.length = xs.length → [c, c].intercalate xs = [c, c].intercalate ys → xs = ys) ↔
      xs.IsChain (KeptApart c) := by
  constructor
  · intro hunique
    rw [List.isChain_iff_forall_rel_of_append_cons_cons]
    rintro p q before after rfl
    have hpair : ∀ p' q', p ++ [c, c] ++ q = p' ++ [c, c] ++ q' → p.length = p'.length := by
      intro p' q' h
      have heq := hunique (before ++ p' :: q' :: after) (by simp) (intercalate_congr h before after)
      have hcons := List.append_cancel_left heq
      rw [(List.cons.inj hcons).1]
    refine ⟨?_, ?_, ?_, ?_⟩
    · rintro ⟨u, v, rfl⟩
      have := hpair u (v ++ [c, c] ++ q) (by simp)
      simp only [List.length_append, List.length_cons, List.length_nil] at this
      omega
    · rintro ⟨u, rfl⟩
      have := hpair u (c :: q) (by simp)
      simp at this
    · rintro ⟨u, v, rfl⟩
      have := hpair (p ++ [c, c] ++ u) v (by simp)
      simp only [List.length_append, List.length_cons, List.length_nil] at this
      omega
    · rintro ⟨v, rfl⟩
      have := hpair (p ++ [c]) v (by simp)
      simp at this
  · intro hchain ys hlen heq
    rcases xs with - | ⟨x, - | ⟨x', xs⟩⟩
    · exact (List.length_eq_zero_iff.1 hlen).symm
    · obtain ⟨y, rfl⟩ := List.length_eq_one_iff.1 hlen
      simpa using heq
    · have hclean := KeptApart.clean hchain (by simp)
      have hys : ys ≠ [] := List.ne_nil_of_length_eq_add_one hlen
      rcases hclean.length_lt.1 ys hys heq (List.cons_ne_nil _ _) with rfl | hlt
      · rfl
      · omega

end Doubled

end JoinedText
