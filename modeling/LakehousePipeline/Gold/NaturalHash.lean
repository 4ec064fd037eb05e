import LakehousePipeline.Gold.FullBuildClosure
import LakehousePipeline.Library.JoinedText

/-!
# What a natural hash keeps apart

`natural_hash` hashes the texts of its columns joined by `"||"`. A null counts as an empty text, so
that it keeps its place, but a column may have the separator in it, or end or begin with one of its
characters next to it, and then other columns are joined to the same text.

`NeighboursApart` is the exact condition on a tuple under which no other tuple of its length is
hashed as the same text (`separated_iff`). Then a change of the tuple opens a version, and no other
tuple has its key, as far as the hash functions themselves do not collide; else there is a tuple
that the replay and the dimensions cannot tell from it, whatever the hash functions are.
-/

namespace LakehousePipeline

/-- The text `natural_hash` hashes. -/
def hashPreimage (columns : List (Option Text)) : Text :=
  concatWs hashSeparator (columns.map fun c ↦ some (c.getD []))

theorem naturalHash_eq (fns : SparkFunctions) (columns : List (Option Text)) :
    naturalHash fns columns = fns.sha256 (hashPreimage columns) :=
  rfl

theorem hashPreimage_eq (columns : List (Option Text)) :
    hashPreimage columns = ['|', '|'].intercalate (columns.map fun c ↦ c.getD []) := by
  rw [hashPreimage, concatWs, List.filterMap_map]
  congr 1
  exact congrFun List.filterMap_eq_map columns

/-- A tuple whose columns are null or not empty. -/
def NullOrTexts (columns : List (Option Text)) : Prop :=
  ∀ c ∈ columns, NullOrText c

/-- Columns that are null or not empty are determined by their texts. -/
theorem NullOrTexts.eq_of_map_eq : ∀ {a b : List (Option Text)}, NullOrTexts a → NullOrTexts b →
    (a.map fun c ↦ c.getD []) = (b.map fun c ↦ c.getD []) → a = b
  | [], [], _, _, _ => rfl
  | [], _ :: _, _, _, h | _ :: _, [], _, _, h => nomatch h
  | x :: a, y :: b, ha, hb, h => by
    obtain ⟨hxy, hab⟩ := List.cons.inj h
    rw [eq_of_getD_eq (ha x List.mem_cons_self) (hb y List.mem_cons_self) hxy,
      eq_of_map_eq (fun c hc ↦ ha c (List.mem_cons_of_mem _ hc))
        (fun c hc ↦ hb c (List.mem_cons_of_mem _ hc)) hab]

/-- Any texts are those of a tuple whose columns are null or not empty. -/
theorem exists_nullOrTexts (texts : List Text) :
    ∃ columns, NullOrTexts columns ∧ (columns.map fun c ↦ c.getD []) = texts := by
  induction texts with
  | nil => exact ⟨[], nofun, rfl⟩
  | cons t texts ih =>
    obtain ⟨columns, hcolumns, rfl⟩ := ih
    by_cases ht : t = []
    · exact ⟨none :: columns, List.forall_mem_cons.2 ⟨nofun, hcolumns⟩, by simp [ht]⟩
    · refine ⟨some t :: columns, List.forall_mem_cons.2 ⟨?_, hcolumns⟩, rfl⟩
      exact fun h ↦ ht (Option.some.inj h)

/-- No column of two or more has a separator in it, none but the last ends in `|`, and none but the
first begins with it. -/
def NeighboursApart (columns : List (Option Text)) : Prop :=
  (columns.map fun c ↦ c.getD []).IsChain (JoinedText.KeptApart '|')

/-- What hashing promises for a tuple of columns, against every other tuple of its length. -/
structure Separated (fns : SparkFunctions) (columns : List (Option Text)) : Prop where
  /-- No other tuple is hashed as the same text. -/
  preimage : ∀ others, others.length = columns.length → NullOrTexts others →
    hashPreimage columns = hashPreimage others → columns = others
  /-- An event with another tuple opens a version after one with this tuple, unless `sha2` gives
  both the same hash. -/
  version : ∀ others, others.length = columns.length → NullOrTexts others → columns ≠ others →
    (fns.sha256 (hashPreimage columns) = fns.sha256 (hashPreimage others) →
      hashPreimage columns = hashPreimage others) →
    ∀ {A κ V : Type} (before : List (Scd2Event A κ V)) (e : Scd2Event A κ V),
      previousNonDeleteHash before = some (naturalHash fns columns) → e.operation ≠ .delete →
      e.attributeHash = naturalHash fns others → isType2Start before e = true
  /-- Another tuple has another key, unless the hash functions give both the same. -/
  member : ∀ others, others.length = columns.length → NullOrTexts others → columns ≠ others →
    (tupleKey fns columns = tupleKey fns others → hashPreimage columns = hashPreimage others) →
    tupleKey fns columns ≠ tupleKey fns others

/-- No other tuple is hashed as the same text exactly if the neighbours are apart. -/
theorem forall_hashPreimage_eq_iff {columns : List (Option Text)} (h : NullOrTexts columns) :
    (∀ others, others.length = columns.length → NullOrTexts others →
      hashPreimage columns = hashPreimage others → columns = others) ↔
      NeighboursApart columns := by
  rw [NeighboursApart, ← JoinedText.forall_intercalate_eq_iff]
  constructor
  · intro hunique texts hlen heq
    obtain ⟨others, hothers, rfl⟩ := exists_nullOrTexts texts
    rw [hunique others (by simpa using hlen) hothers
      ((hashPreimage_eq columns).trans (heq.trans (hashPreimage_eq others).symm))]
  · intro hunique others hlen hothers heq
    rw [hashPreimage_eq, hashPreimage_eq] at heq
    exact h.eq_of_map_eq hothers (hunique _ (by simpa using hlen) heq)

/-- **A tuple is separated from all others exactly if its neighbours are apart.** -/
theorem separated_iff (fns : SparkFunctions) {columns : List (Option Text)}
    (h : NullOrTexts columns) : Separated fns columns ↔ NeighboursApart columns := by
  constructor
  · exact fun hsep ↦ (forall_hashPreimage_eq_iff h).1 hsep.preimage
  · intro hapart
    have hunique := (forall_hashPreimage_eq_iff h).2 hapart
    refine ⟨hunique, ?_, ?_⟩
    · intro others hlen hothers hne hsha A κ V before e hbefore hop hhash
      have hneHash : some e.attributeHash ≠ previousNonDeleteHash before := by
        rw [hbefore, hhash, naturalHash_eq, naturalHash_eq]
        exact fun heq ↦ hne (hunique others hlen hothers (hsha (Option.some.inj heq).symm))
      simp [isType2Start, hop, hneHash]
    · exact fun others hlen hothers hne hkeys heq ↦ hne (hunique others hlen hothers (hkeys heq))

/-- Where they are not, another tuple has the hash and the key of this one, and the replay takes an
event with it for no change. -/
theorem exists_not_told_apart {columns : List (Option Text)} (h : NullOrTexts columns)
    (hapart : ¬NeighboursApart columns) : ∃ others, others.length = columns.length ∧
      NullOrTexts others ∧ columns ≠ others ∧ ∀ fns : SparkFunctions,
        naturalHash fns columns = naturalHash fns others ∧
        tupleKey fns columns = tupleKey fns others ∧
        ∀ {A κ V : Type} (before : List (Scd2Event A κ V)) (e : Scd2Event A κ V),
          previousNonDeleteHash before = some (naturalHash fns columns) →
          previousOperation before ≠ some .delete → e.attributeHash = naturalHash fns others →
          isType2Start before e = false := by
  rw [← forall_hashPreimage_eq_iff h] at hapart
  simp only [not_forall] at hapart
  obtain ⟨others, hlen, hothers, heq, hne⟩ := hapart
  refine ⟨others, hlen, hothers, hne, fun fns ↦ ?_⟩
  have hhash : naturalHash fns columns = naturalHash fns others := by
    rw [naturalHash_eq, naturalHash_eq, heq]
  refine ⟨hhash, by rw [tupleKey, tupleKey, hhash], ?_⟩
  intro A κ V before e hbefore hop he
  simp [isType2Start, hbefore, he, hhash, hop]

/-- Two payments that a first and a last character keep apart. -/
theorem separated_card_paid :
    Separated .plain [some "card".toList, some "paid".toList] :=
  (separated_iff .plain (by simp [NullOrTexts, NullOrText])).2 (by
    refine List.isChain_pair.2 ⟨?_, ?_, ?_, ?_⟩ <;> decide)

/-- The hashed columns of a customer called `An| Le`. -/
def customerAnBarLe : List (Option Text) :=
  [some "an".toList, some "an@shop".toList, some "An|".toList, some "Le".toList, none,
    some "active".toList]

/-- The hashed columns of a customer called `An |Le`. -/
def customerAnBarLeLast : List (Option Text) :=
  [some "an".toList, some "an@shop".toList, some "An".toList, some "|Le".toList, none,
    some "active".toList]

/-- The change from one to the other is not seen: the two are hashed as the same text. -/
theorem not_forall_separated :
    (NullOrTexts customerAnBarLe ∧ NullOrTexts customerAnBarLeLast ∧
      customerAnBarLe ≠ customerAnBarLeLast ∧
      hashPreimage customerAnBarLe = hashPreimage customerAnBarLeLast) ∧
    ¬∀ (fns : SparkFunctions) (columns : List (Option Text)), NullOrTexts columns →
      Separated fns columns := by
  have hleft : NullOrTexts customerAnBarLe := by simp [NullOrTexts, NullOrText, customerAnBarLe]
  have hright : NullOrTexts customerAnBarLeLast := by
    simp [NullOrTexts, NullOrText, customerAnBarLeLast]
  have hne : customerAnBarLe ≠ customerAnBarLeLast := by decide
  have hpreimage : hashPreimage customerAnBarLe = hashPreimage customerAnBarLeLast := by decide
  refine ⟨⟨hleft, hright, hne, hpreimage⟩, fun h ↦ ?_⟩
  exact hne ((h .plain customerAnBarLe hleft).preimage _ rfl hright hpreimage)

end LakehousePipeline
