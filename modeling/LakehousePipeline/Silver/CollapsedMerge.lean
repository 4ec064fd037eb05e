import LakehousePipeline.Adapters.NewerCondition
import LakehousePipeline.Silver.Convergence

/-!
# Collapsing a batch before the merge

The window of `current_state` and the guard of the Silver merge order the events of a key by the
same columns, in two places: a row the guard calls newer ranks before the other in the window
(`window_saysNewer`). So a batch may be collapsed to the first rank of each key and merged, or
merged event by event, and the row of a key comes from an event of the same sequence
(`mergedAlike_iff`).

There is one exception, `Forgotten`. A CDC merge does not insert a delete. Where the table has no
row of the key and the first rank is a delete, the collapsed batch leaves no row; event by event,
an insert or update of the batch leaves one. The guard does not look at `_event_id`, by which the
window breaks ties; so the event itself is the same only where a sequence belongs to one event.

## One order in two places

The window sorts by the sequence columns, then by the text of the event id; the guard of the merge
compares the sequence columns of a row with those of the row that is there. Both read null as the
lowest value. So the first rank is a newest event of the key (`isNewest_of_firstRanked`), and the
table after a collapsed merge is decided key by key from the first rank and the row that was there
(`lookup_transformTable_eq_firstRanked`).

## Event by event

`rowAfter` is the row of a key after its events. A row that is there stays until an event is newer,
and then is taken from a newest event (`rowAfter_some`). A key without a row gets one from an event
that may be inserted, and keeps the `created_at` of that event even if a newer one replaces it
(`rowAfter_none`). `SamePick` compares the outcomes of the two ways: the sequence, the deletion flag
and the business columns of a row that is shown, but not the `created_at` of a new row.
-/

namespace LakehousePipeline

variable {K P : Type}

/-! ### The predicate on the Silver sequence columns -/

/-- `SILVER_SEQUENCE_COLUMNS`. -/
def silverSequenceColumns : List Text :=
  ["_event_occurred_at".toList, "_ingestion_priority".toList, "_source_event_sequence".toList,
    "_source_event_subsequence".toList]

/-- The sequence columns by name. -/
def sequenceValue (columns : List (Option ℤ)) (name : Text) : Option ℤ :=
  ((silverSequenceColumns.zip columns).lookup name).join

/-- The guard compares the sequences. -/
theorem saysNewer_sequenceValue_iff (a b c d a' b' c' d' : Option ℤ) :
    SaysNewer silverSequenceColumns (sequenceValue [a, b, c, d]) (sequenceValue [a', b', c', d']) ↔
      sequenceKey [a', b', c', d'] < sequenceKey [a, b, c, d] := by
  rw [saysNewer_iff_lexicographicNewer (by decide), lexicographicNewer_iff (by simp)]
  rfl

/-- The predicate on two events is the order of their sequences. -/
theorem BronzeEvent.saysNewer_iff (e e' : BronzeEvent K P) :
    SaysNewer silverSequenceColumns (sequenceValue e.sequenceColumns)
      (sequenceValue e'.sequenceColumns) ↔ e'.sequence < e.sequence :=
  saysNewer_sequenceValue_iff ..

variable [DecidableEq K]

/-- **The guard of the Silver merge is the predicate.** -/
theorem isNewer_silverColumns_iff [DecidableEq P] (target source : SilverRow K P) :
    isNewer silverColumns target (.row source) = true ↔
      SaysNewer silverSequenceColumns (sequenceValue source.sequenceColumns)
        (sequenceValue target.sequenceColumns) := by
  refine Iff.trans ?_ (saysNewer_sequenceValue_iff ..).symm
  exact lexicographicNewer_iff rfl

/-! ### The window -/

variable (fns : SparkFunctions)

/-- The events of a key in the order of the window. -/
def rankedEvents (k : K) (events : List (BronzeEvent K P)) : List (BronzeEvent K P) :=
  (eventsOf k events).insertionSort fun a b ↦ b.windowOrder fns ≤ a.windowOrder fns

/-- The event of a key that `current_state` keeps. -/
def firstRanked (k : K) (events : List (BronzeEvent K P)) : Option (BronzeEvent K P) :=
  (rankedEvents fns k events).head?

/-- The window has the events of the key. -/
theorem mem_rankedEvents {k : K} {events : List (BronzeEvent K P)} {e : BronzeEvent K P} :
    e ∈ rankedEvents fns k events ↔ e ∈ eventsOf k events :=
  List.mem_insertionSort _

/-- It has them in its order. -/
theorem pairwise_rankedEvents (k : K) (events : List (BronzeEvent K P)) :
    (rankedEvents fns k events).Pairwise fun a b ↦ b.windowOrder fns ≤ a.windowOrder fns := by
  have := total_windowOrder (K := K) (P := P) fns
  have := isTrans_windowOrder (K := K) (P := P) fns
  exact List.pairwise_insertionSort _ _

omit [DecidableEq K] in
/-- An event with the greater sequence is ahead in the window order. -/
theorem windowOrder_lt_of_sequence_lt {e e' : BronzeEvent K P} (h : e'.sequence < e.sequence) :
    e'.windowOrder fns < e.windowOrder fns :=
  Prod.Lex.toLex_lt_toLex.2 (Or.inl h)

/-- **What the predicate calls newer ranks before.** -/
theorem window_saysNewer {k : K} {events : List (BronzeEvent K P)} {e e' : BronzeEvent K P}
    (he : e ∈ eventsOf k events) (he' : e' ∈ eventsOf k events)
    (h : SaysNewer silverSequenceColumns (sequenceValue e.sequenceColumns)
      (sequenceValue e'.sequenceColumns)) :
    [e, e'].Sublist (rankedEvents fns k events) ∧
      ¬[e', e].Sublist (rankedEvents fns k events) := by
  have hlt := windowOrder_lt_of_sequence_lt fns ((BronzeEvent.saysNewer_iff e e').1 h)
  have hnot : ¬[e', e].Sublist (rankedEvents fns k events) := fun hsub ↦
    hlt.not_ge (List.pairwise_iff_forall_sublist.1 (pairwise_rankedEvents fns k events) hsub)
  refine ⟨?_, hnot⟩
  obtain ⟨before, after, hsplit⟩ := List.append_of_mem ((mem_rankedEvents fns).2 he)
  have hmem := (mem_rankedEvents fns).2 he'
  rw [hsplit] at hmem hnot ⊢
  rcases List.mem_append.1 hmem with hbefore | hafter
  · refine absurd ?_ hnot
    exact (List.singleton_sublist.2 hbefore).append (List.singleton_sublist.2 List.mem_cons_self)
  · rcases List.mem_cons.1 hafter with rfl | hafter
    · exact absurd hlt (lt_irrefl _)
    · refine List.Sublist.trans ?_ (List.sublist_append_right before _)
      exact (List.singleton_sublist.2 hafter).cons_cons e

/-- The first rank is a newest event of the key. -/
theorem isNewest_of_firstRanked {k : K} {events : List (BronzeEvent K P)} {e : BronzeEvent K P}
    (h : firstRanked fns k events = some e) :
    LastWriterWins.IsNewest (fun e ↦ e.sequence) (eventsOf k events) e := by
  obtain ⟨rest, hsplit⟩ := List.head?_eq_some_iff.1 h
  have hpairwise := pairwise_rankedEvents fns k events
  rw [hsplit, List.pairwise_cons] at hpairwise
  refine ⟨(mem_rankedEvents fns).1 (hsplit ▸ List.mem_cons_self), fun x hx ↦ ?_⟩
  have hmem := (mem_rankedEvents fns).2 hx
  rw [hsplit] at hmem
  rcases List.mem_cons.1 hmem with rfl | hrest
  · exact le_rfl
  · exact le_of_not_gt fun hlt ↦
      (windowOrder_lt_of_sequence_lt fns hlt).not_ge (hpairwise.1 x hrest)

/-- **A key is merged as its first rank.** -/
theorem lookup_transformTable_eq_firstRanked (clean : P → P) (events : List (BronzeEvent K P))
    (k : K) : MergeInto.lookup (fun row ↦ row.key) k (transformTable fns clean events) =
      (firstRanked fns k events).map (mergedRow fns clean) := by
  have hfilter := Window.filter_firstPerPartition (fun e : BronzeEvent K P ↦ e.key)
    (fun a b ↦ b.windowOrder fns ≤ a.windowOrder fns) events k
  rw [transformTable_eq_map, MergeInto.lookup, List.find?_map]
  show Option.map _ (List.find? (fun e : BronzeEvent K P ↦ decide (e.key = k)) _) = _
  rw [← List.head?_filter, hfilter, firstRanked, rankedEvents, eventsOf]
  cases ((events.filter fun e ↦ decide (e.key = k)).insertionSort
    fun a b ↦ b.windowOrder fns ≤ a.windowOrder fns).head? <;> rfl

/-! ### Event by event -/

/-- A batch merged at once: a CDC micro-batch or a Batch increment. -/
def SilverPiece.of (isCdc : Bool) (events : List (BronzeEvent K P)) : SilverPiece K P :=
  if isCdc then .cdc events else .batch events

omit [DecidableEq K] in
/-- A batch has its events, whatever it is. -/
@[simp] theorem events_of (isCdc : Bool) (events : List (BronzeEvent K P)) :
    (SilverPiece.of isCdc events).events = events := by
  cases isCdc <;> rfl

omit [DecidableEq K] in
/-- And is of the path it is given. -/
@[simp] theorem isCdc_of (isCdc : Bool) (events : List (BronzeEvent K P)) :
    (SilverPiece.of isCdc events).isCdc = isCdc := by
  cases isCdc <;> rfl

variable (clean : P → P)

/-- The row of a key after its events, merged one after the other. -/
def rowAfter (isCdc : Bool) (held : Option (SilverRow K P)) (events : List (BronzeEvent K P)) :
    Option (SilverRow K P) :=
  events.foldl (fun held e ↦ mergeSilverRow isCdc held (some (mergedRow fns clean e))) held

/-- The merge inserts no delete. -/
def IsOrphan (isCdc : Bool) (e : BronzeEvent K P) : Prop :=
  isCdc = true ∧ e.operation = .delete

instance (isCdc : Bool) (e : BronzeEvent K P) : Decidable (IsOrphan isCdc e) :=
  inferInstanceAs (Decidable (_ ∧ _))

/-- The row has the columns of an event, but for `created_at` and, where a CDC merge marks a row as
deleted, the business columns. -/
structure TakenFrom (isCdc : Bool) (row : SilverRow K P) (e : BronzeEvent K P) : Prop where
  columns : row =
    { mergedRow fns clean e with createdAt := row.createdAt, payload := row.payload }
  payload : ¬IsOrphan isCdc e → row.payload = clean e.payload

variable {fns clean}

omit [DecidableEq K] in
/-- A row that is taken from an event has its sequence. -/
theorem TakenFrom.sequence {isCdc : Bool} {row : SilverRow K P} {e : BronzeEvent K P}
    (h : TakenFrom fns clean isCdc row e) : row.sequence = e.sequence := by
  rw [h.columns]
  rfl

omit [DecidableEq K] in
/-- It is marked as deleted if the event is a delete. -/
theorem TakenFrom.isDeleted {isCdc : Bool} {row : SilverRow K P} {e : BronzeEvent K P}
    (h : TakenFrom fns clean isCdc row e) : row.isDeleted = true ↔ e.operation = .delete := by
  rw [h.columns]
  exact decide_eq_true_iff

omit [DecidableEq K] in
/-- An inserted row. -/
theorem mergeSilverRow_none {isCdc : Bool} {e : BronzeEvent K P} :
    mergeSilverRow isCdc none (some (mergedRow fns clean e)) =
      if IsOrphan isCdc e then none else some (mergedRow fns clean e) := by
  refine if_congr ?_ rfl rfl
  rw [Bool.and_eq_true]
  exact and_congr_right fun _ ↦ decide_eq_true_iff

variable (fns clean) in
omit [DecidableEq K] in
/-- A row that is replaced is taken from the event, and keeps its `created_at`. -/
theorem takenFrom_mergeSilverRow (isCdc : Bool) {t : SilverRow K P} {e : BronzeEvent K P}
    (hkey : e.key = t.key) (hlt : t.sequence < e.sequence) :
    ∃ row, mergeSilverRow isCdc (some t) (some (mergedRow fns clean e)) = some row ∧
      TakenFrom fns clean isCdc row e ∧ row.createdAt = t.createdAt := by
  rw [mergeSilverRow_of_lt hlt]
  split
  · rename_i hsoft
    have horphan : IsOrphan isCdc e := by
      rw [Bool.and_eq_true] at hsoft
      exact ⟨hsoft.1, of_decide_eq_true hsoft.2⟩
    refine ⟨_, rfl, ⟨?_, fun hnot ↦ absurd horphan hnot⟩, rfl⟩
    rw [← hkey]
    rfl
  · exact ⟨_, rfl, ⟨rfl, fun _ ↦ rfl⟩, rfl⟩

variable (fns clean) in
omit [DecidableEq K] in
/-- **What becomes of a row.** It stays if no event is newer; else it is taken from a newest
event. -/
theorem rowAfter_some (isCdc : Bool) {events : List (BronzeEvent K P)} {t : SilverRow K P}
    (hkey : ∀ e ∈ events, e.key = t.key) :
    ∃ row, rowAfter fns clean isCdc (some t) events = some row ∧ row.createdAt = t.createdAt ∧
      ((row = t ∧ ∀ e ∈ events, e.sequence ≤ t.sequence) ∨
        ∃ e, LastWriterWins.IsNewest (fun e ↦ e.sequence) events e ∧ t.sequence < e.sequence ∧
          TakenFrom fns clean isCdc row e) := by
  induction events generalizing t with
  | nil => exact ⟨t, rfl, rfl, Or.inl ⟨rfl, by simp⟩⟩
  | cons e events ih =>
    rw [List.forall_mem_cons] at hkey
    rcases lt_or_ge t.sequence e.sequence with hlt | hge
    · obtain ⟨next, hnext, htaken, hcreated⟩ :=
        takenFrom_mergeSilverRow fns clean isCdc hkey.1 hlt
      have hnextKey : next.key = t.key := by
        rw [htaken.columns, ← hkey.1]
        rfl
      obtain ⟨row, hrow, hrowCreated, hcases⟩ := ih (t := next) (hnextKey ▸ hkey.2)
      refine ⟨row, ?_, hrowCreated.trans hcreated, Or.inr ?_⟩
      · rw [rowAfter, List.foldl_cons, hnext]
        exact hrow
      rcases hcases with ⟨rfl, hmax⟩ | ⟨e', hnewest, hgreater, htaken'⟩
      · refine ⟨e, ⟨List.mem_cons_self, List.forall_mem_cons.2 ⟨le_rfl, ?_⟩⟩, hlt, htaken⟩
        exact fun x hx ↦ (hmax x hx).trans htaken.sequence.le
      · rw [htaken.sequence] at hgreater
        refine ⟨e', ⟨List.mem_cons_of_mem e hnewest.1, ?_⟩, hlt.trans hgreater, htaken'⟩
        exact List.forall_mem_cons.2 ⟨hgreater.le, hnewest.2⟩
    · obtain ⟨row, hrow, hcreated, hcases⟩ := ih hkey.2
      refine ⟨row, ?_, hcreated, ?_⟩
      · rw [rowAfter, List.foldl_cons,
          mergeSilverRow_of_ge (s := mergedRow fns clean e) hge]
        exact hrow
      rcases hcases with ⟨rfl, hmax⟩ | ⟨e', hnewest, hgreater, htaken⟩
      · exact Or.inl ⟨rfl, List.forall_mem_cons.2 ⟨hge, hmax⟩⟩
      · refine Or.inr ⟨e', ⟨List.mem_cons_of_mem e hnewest.1, ?_⟩, hgreater, htaken⟩
        exact List.forall_mem_cons.2 ⟨hge.trans hgreater.le, hnewest.2⟩

variable (fns clean) in
omit [DecidableEq K] in
/-- **What becomes of a key without a row.** It gets none if no event may be inserted; else its row
is taken from an event that is newest but for deletes that were not inserted. -/
theorem rowAfter_none (isCdc : Bool) {k : K} {events : List (BronzeEvent K P)}
    (hkey : ∀ e ∈ events, e.key = k) :
    (rowAfter fns clean isCdc none events = none ∧ ∀ e ∈ events, IsOrphan isCdc e) ∨
      ∃ row e, rowAfter fns clean isCdc none events = some row ∧ e ∈ events ∧
        TakenFrom fns clean isCdc row e ∧ (∃ x ∈ events, ¬IsOrphan isCdc x) ∧
          ∀ x ∈ events, ¬IsOrphan isCdc x → x.sequence ≤ e.sequence := by
  induction events with
  | nil => exact Or.inl ⟨rfl, by simp⟩
  | cons e events ih =>
    rw [List.forall_mem_cons] at hkey
    rw [rowAfter, List.foldl_cons, mergeSilverRow_none]
    by_cases horphan : IsOrphan isCdc e
    · rw [if_pos horphan]
      rcases ih hkey.2 with ⟨hnone, hall⟩ | ⟨row, e', hrow, he', htaken, ⟨x, hx, hxo⟩, hmax⟩
      · exact Or.inl ⟨hnone, List.forall_mem_cons.2 ⟨horphan, hall⟩⟩
      · refine Or.inr ⟨row, e', hrow, List.mem_cons_of_mem e he', htaken,
          ⟨x, List.mem_cons_of_mem e hx, hxo⟩, ?_⟩
        exact List.forall_mem_cons.2 ⟨fun hnot ↦ absurd horphan hnot, hmax⟩
    · rw [if_neg horphan]
      have hheld : TakenFrom fns clean isCdc (mergedRow fns clean e) e := ⟨rfl, fun _ ↦ rfl⟩
      obtain ⟨row, hrow, -, hcases⟩ := rowAfter_some fns clean isCdc (t := mergedRow fns clean e)
        fun x hx ↦ (hkey.2 x hx).trans hkey.1.symm
      have hwitness : ∃ x ∈ e :: events, ¬IsOrphan isCdc x := ⟨e, List.mem_cons_self, horphan⟩
      rcases hcases with ⟨rfl, hmax⟩ | ⟨e', hnewest, hgreater, htaken⟩
      · refine Or.inr ⟨_, e, hrow, List.mem_cons_self, hheld, hwitness, ?_⟩
        exact List.forall_mem_cons.2 ⟨fun _ ↦ le_rfl, fun x hx _ ↦ hmax x hx⟩
      · refine Or.inr ⟨row, e', hrow, List.mem_cons_of_mem e hnewest.1, htaken, hwitness, ?_⟩
        exact List.forall_mem_cons.2 ⟨fun _ ↦ hgreater.le, fun x hx _ ↦ hnewest.2 x hx⟩

/-! ### The same pick -/

/-- Two rows of one event: they differ at most in `created_at` and, where a CDC merge marked them as
deleted, in the business columns. -/
structure SamePick (isCdc : Bool) (a b : SilverRow K P) : Prop where
  columns : b = { a with createdAt := b.createdAt, payload := b.payload }
  payload : ¬(isCdc = true ∧ a.isDeleted = true) → b.payload = a.payload

omit [DecidableEq K] in
/-- A row is the same pick as itself. -/
theorem SamePick.refl (isCdc : Bool) (row : SilverRow K P) : SamePick isCdc row row where
  columns := rfl
  payload _ := rfl

omit [DecidableEq K] in
/-- Two rows taken from one event are the same pick. -/
theorem TakenFrom.samePick {isCdc : Bool} {a b : SilverRow K P} {e : BronzeEvent K P}
    (ha : TakenFrom fns clean isCdc a e) (hb : TakenFrom fns clean isCdc b e) :
    SamePick isCdc a b where
  columns := by
    rw [ha.columns]
    exact hb.columns
  payload hnot := by
    rw [ha.isDeleted] at hnot
    rw [ha.payload hnot, hb.payload hnot]

/-- Two ways to merge the events of a key leave it the same row: a row of the same sequence, of the
same event if the sequences tell the events apart, and with the same `created_at` if the key had
one. -/
structure MergedAlike (isCdc : Bool) (events : List (BronzeEvent K P))
    (held a b : Option (SilverRow K P)) : Prop where
  sequence : (a.map fun row ↦ row.sequence) = b.map fun row ↦ row.sequence
  createdAt : held.isSome = true → (a.map fun row ↦ row.createdAt) = b.map fun row ↦ row.createdAt
  samePick : LastWriterWins.StampsIdentify (fun e ↦ e.sequence) events →
    Option.Rel (SamePick isCdc) a b

variable (fns clean) in
omit [DecidableEq K] in
/-- **One key**: its newest event alone leaves the same row as all its events, unless there is no
row, the newest event is not inserted, and another one is. -/
theorem mergedAlike_rowAfter_iff (isCdc : Bool) {k : K} {held : Option (SilverRow K P)}
    {events order : List (BronzeEvent K P)} {e : BronzeEvent K P}
    (hmem : ∀ x, x ∈ order ↔ x ∈ events) (hkey : ∀ x ∈ events, x.key = k)
    (hheld : ∀ t, held = some t → t.key = k)
    (he : LastWriterWins.IsNewest (fun e ↦ e.sequence) events e) :
    MergedAlike isCdc events held (rowAfter fns clean isCdc held [e])
        (rowAfter fns clean isCdc held order) ↔
      ¬(held = none ∧ IsOrphan isCdc e ∧ ∃ x ∈ events, ¬IsOrphan isCdc x) := by
  have heOrder : e ∈ order := (hmem e).2 he.1
  have hmax : ∀ x ∈ order, x.sequence ≤ e.sequence := fun x hx ↦ he.2 x ((hmem x).1 hx)
  have hkeyOrder : ∀ x ∈ order, x.key = k := fun x hx ↦ hkey x ((hmem x).1 hx)
  cases held with
  | some t =>
    refine iff_of_true ?_ fun hforgotten ↦ Option.some_ne_none t hforgotten.1
    -- the key is there: no change is forgotten, the newest decides both
    have hkeyT : ∀ x ∈ order, x.key = t.key := fun x hx ↦
      (hkeyOrder x hx).trans (hheld t rfl).symm
    obtain ⟨one, hone, honeCreated, honeCases⟩ :=
      rowAfter_some fns clean isCdc (List.forall_mem_singleton.2 (hkeyT e heOrder))
    obtain ⟨all, hall, hallCreated, hallCases⟩ := rowAfter_some fns clean isCdc hkeyT
    rw [hone, hall]
    have hcreated : (some one.createdAt) = some all.createdAt := by rw [honeCreated, hallCreated]
    rcases honeCases with ⟨rfl, hle⟩ | ⟨x, ⟨hx, -⟩, hlt, htaken⟩
    · rw [List.forall_mem_singleton] at hle
      rcases hallCases with ⟨rfl, -⟩ | ⟨y, ⟨hy, -⟩, hlt, -⟩
      · exact ⟨rfl, fun _ ↦ rfl, fun _ ↦ .some (SamePick.refl isCdc _)⟩
      · exact absurd ((hmax y hy).trans hle) hlt.not_ge
    · obtain rfl := List.mem_singleton.1 hx
      rcases hallCases with ⟨rfl, hle⟩ | ⟨y, hy, -, htaken'⟩
      · exact absurd (hle x heOrder) hlt.not_ge
      · have hseq : x.sequence = y.sequence := le_antisymm (hy.2 x heOrder) (hmax y hy.1)
        refine ⟨?_, fun _ ↦ hcreated, fun hstamps ↦ .some ?_⟩
        · rw [Option.map_some, Option.map_some, htaken.sequence, htaken'.sequence, hseq]
        · obtain rfl := hstamps x he.1 y ((hmem y).1 hy.1) hseq
          exact htaken.samePick htaken'
  | none =>
    have hone : rowAfter fns clean isCdc none [e] = _ := mergeSilverRow_none
    rw [hone, and_iff_right rfl]
    -- the key is new: orphan deletes before the first written change leave nothing
    rcases rowAfter_none fns clean isCdc hkeyOrder with
      ⟨hnone, horphans⟩ | ⟨row, y, hrow, hy, htaken, ⟨x, hx, hwritten⟩, hnewest⟩
    · rw [hnone, if_pos (horphans e heOrder)]
      refine iff_of_true ⟨rfl, fun _ ↦ rfl, fun _ ↦ .none⟩ ?_
      rintro ⟨-, x, hx, hnot⟩
      exact hnot (horphans x ((hmem x).2 hx))
    · rw [hrow]
      by_cases horphan : IsOrphan isCdc e
      · rw [if_pos horphan]
        -- the newest is an orphan delete: collapsed, it forgets what came before
        refine iff_of_false (fun halike ↦ ?_) fun hnot ↦
          hnot ⟨horphan, x, (hmem x).1 hx, hwritten⟩
        exact Option.some_ne_none _ halike.sequence.symm
      · rw [if_neg horphan]
        have hheldOne : TakenFrom fns clean isCdc (mergedRow fns clean e) e := ⟨rfl, fun _ ↦ rfl⟩
        have hseq : e.sequence = y.sequence :=
          le_antisymm (hnewest e heOrder horphan) (hmax y hy)
        refine iff_of_true ⟨?_, nofun, fun hstamps ↦ .some ?_⟩ fun h ↦ horphan h.1
        · rw [Option.map_some, Option.map_some, htaken.sequence, ← hseq]
          rfl
        · obtain rfl := hstamps e he.1 y ((hmem y).1 hy) hseq
          exact hheldOne.samePick htaken

/-! ### The two ways to merge a batch -/

section Tables

variable [DecidableEq P]

omit [DecidableEq P] in
/-- A single event is its own first rank. -/
theorem firstRanked_singleton (k : K) (e : BronzeEvent K P) :
    firstRanked fns k [e] = if e.key = k then some e else none := by
  by_cases hk : e.key = k
  · simp [firstRanked, rankedEvents, eventsOf, hk]
  · simp [firstRanked, rankedEvents, eventsOf, hk]

variable (fns clean) in
/-- The whole batch at once: each key sees its first rank. -/
theorem lookup_mergePiece_of (isCdc : Bool) {table : List (SilverRow K P)}
    (hkeys : (table.map fun row ↦ row.key).Nodup) (events : List (BronzeEvent K P)) :
    ∃ collapsed, mergePiece fns clean table (.of isCdc events) = some collapsed ∧
      (collapsed.map fun row ↦ row.key).Nodup ∧
      ∀ k, MergeInto.lookup (fun row ↦ row.key) k collapsed =
        rowAfter fns clean isCdc (MergeInto.lookup (fun row ↦ row.key) k table)
          (firstRanked fns k events).toList := by
  obtain ⟨collapsed, hmerge, hkeys', hlookup⟩ :=
    lookup_mergePiece fns clean hkeys (.of isCdc events)
  refine ⟨collapsed, hmerge, hkeys', fun k ↦ ?_⟩
  rw [hlookup, events_of, isCdc_of, lookup_transformTable_eq_firstRanked]
  cases firstRanked fns k events with
  | none => cases MergeInto.lookup (fun row : SilverRow K P ↦ row.key) k table <;> rfl
  | some e => rfl

variable (fns clean) in
/-- Event by event: each key sees its events. -/
theorem lookup_mergePieces_of (isCdc : Bool) {table : List (SilverRow K P)}
    (hkeys : (table.map fun row ↦ row.key).Nodup) (events : List (BronzeEvent K P)) :
    ∃ oneByOne, mergePieces fns clean table (events.map fun e ↦ .of isCdc [e]) = some oneByOne ∧
      (oneByOne.map fun row ↦ row.key).Nodup ∧
      ∀ k, MergeInto.lookup (fun row ↦ row.key) k oneByOne =
        rowAfter fns clean isCdc (MergeInto.lookup (fun row ↦ row.key) k table)
          (eventsOf k events) := by
  induction events generalizing table with
  | nil => exact ⟨table, rfl, hkeys, fun k ↦ rfl⟩
  | cons e events ih =>
    obtain ⟨next, hnext, hkeysNext, hlookupNext⟩ :=
      lookup_mergePiece_of fns clean isCdc hkeys [e]
    obtain ⟨oneByOne, hrest, hkeys', hlookup⟩ := ih hkeysNext
    refine ⟨oneByOne, ?_, hkeys', fun k ↦ ?_⟩
    · rw [mergePieces, List.map_cons, List.foldlM_cons, hnext]
      exact hrest
    · rw [hlookup, hlookupNext, firstRanked_singleton, eventsOf, eventsOf]
      by_cases hk : e.key = k
      · rw [if_pos hk, List.filter_cons_of_pos (by simpa using hk)]
        rfl
      · rw [if_neg hk, List.filter_cons_of_neg (by simpa using hk)]
        rfl

variable (fns) in
/-- The case in which a batch is not to be collapsed: a key without a row whose first rank is not
inserted, while another of its events is. -/
structure Forgotten (isCdc : Bool) (table : List (SilverRow K P)) (events : List (BronzeEvent K P))
    (k : K) : Prop where
  unheld : MergeInto.lookup (fun row ↦ row.key) k table = none
  orphan : ∃ e, firstRanked fns k events = some e ∧ IsOrphan isCdc e
  written : ∃ e ∈ eventsOf k events, ¬IsOrphan isCdc e

variable (fns clean) in
/-- **Collapsing a batch** and merging leaves the rows that merging its events one after the other
leaves, in whatever order. -/
theorem mergedAlike_iff (isCdc : Bool) {table : List (SilverRow K P)}
    (hkeys : (table.map fun row ↦ row.key).Nodup) {events order : List (BronzeEvent K P)}
    (hperm : order.Perm events) :
    ∃ collapsed oneByOne, mergePiece fns clean table (.of isCdc events) = some collapsed ∧
      mergePieces fns clean table (order.map fun e ↦ .of isCdc [e]) = some oneByOne ∧
      ∀ k, MergedAlike isCdc (eventsOf k events) (MergeInto.lookup (fun row ↦ row.key) k table)
          (MergeInto.lookup (fun row ↦ row.key) k collapsed)
          (MergeInto.lookup (fun row ↦ row.key) k oneByOne) ↔
        ¬Forgotten fns isCdc table events k := by
  obtain ⟨collapsed, hcollapsed, -, hlookup⟩ := lookup_mergePiece_of fns clean isCdc hkeys events
  obtain ⟨oneByOne, hone, -, hlookup'⟩ := lookup_mergePieces_of fns clean isCdc hkeys order
  refine ⟨collapsed, oneByOne, hcollapsed, hone, fun k ↦ ?_⟩
  have hmem : ∀ x, x ∈ eventsOf k order ↔ x ∈ eventsOf k events := fun x ↦
    (hperm.filter _).mem_iff
  rw [hlookup, hlookup']
  cases hfirst : firstRanked fns k events with
  | none =>
    have hnil : eventsOf k events = [] := List.eq_nil_iff_forall_not_mem.2 fun x hx ↦ by
      have hx' := (mem_rankedEvents fns).2 hx
      rw [List.head?_eq_none_iff.1 hfirst] at hx'
      exact List.not_mem_nil hx'
    have hnil' : eventsOf k order = [] :=
      List.eq_nil_iff_forall_not_mem.2 fun x hx ↦ by
        rw [hmem, hnil] at hx
        exact List.not_mem_nil hx
    rw [hnil']
    refine iff_of_true ⟨rfl, fun _ ↦ rfl, fun _ ↦ ?_⟩ fun h ↦ ?_
    · show Option.Rel _ (MergeInto.lookup _ k table) (MergeInto.lookup _ k table)
      cases MergeInto.lookup (fun row : SilverRow K P ↦ row.key) k table with
      | none => exact .none
      | some row => exact .some (SamePick.refl isCdc row)
    · obtain ⟨e, he, -⟩ := h.orphan
      exact Option.some_ne_none e (he.symm.trans hfirst)
  | some e =>
    have hnewest := isNewest_of_firstRanked fns hfirst
    have hheld : ∀ t, MergeInto.lookup (fun row ↦ row.key) k table = some t → t.key = k :=
      fun t ht ↦ (MergeInto.mem_of_lookup ht).2
    have hiff := mergedAlike_rowAfter_iff fns clean isCdc hmem
      (fun x hx ↦ (mem_eventsOf.1 hx).2) hheld hnewest
    refine hiff.trans (not_congr ⟨fun h ↦ ⟨h.1, ⟨e, hfirst, h.2.1⟩, h.2.2⟩, fun h ↦ ?_⟩)
    obtain ⟨x, hx, horphan⟩ := h.orphan
    obtain rfl := Option.some.inj (hx.symm.trans hfirst)
    exact ⟨h.unheld, horphan, h.written⟩

/-- **The newer-than predicate** is a strict order on the values of any sequence columns, never
null; it is the guard of the Silver merge, and what it calls newer ranks before in the window. So
collapsing a batch picks the row of each key as merging its events in any order does, but for the
forgotten ones. -/
theorem newerOrder_and_collapse (fns : SparkFunctions) (clean : P → P) :
    lexicographicNewerCondition [] = none ∧
      (∀ (V : Type) [LinearOrder V] (names : List Text), names ≠ [] → NewerOrder V names) ∧
      (∀ target source : SilverRow K P, isNewer silverColumns target (.row source) = true ↔
        SaysNewer silverSequenceColumns (sequenceValue source.sequenceColumns)
          (sequenceValue target.sequenceColumns)) ∧
      (∀ (k : K) (events : List (BronzeEvent K P)), ∀ e ∈ eventsOf k events,
        ∀ e' ∈ eventsOf k events,
          SaysNewer silverSequenceColumns (sequenceValue e.sequenceColumns)
            (sequenceValue e'.sequenceColumns) →
          [e, e'].Sublist (rankedEvents fns k events) ∧
            ¬[e', e].Sublist (rankedEvents fns k events)) ∧
      ∀ (isCdc : Bool) (table : List (SilverRow K P)) (events order : List (BronzeEvent K P)),
        (table.map fun row ↦ row.key).Nodup → order.Perm events →
        ∃ collapsed oneByOne, mergePiece fns clean table (.of isCdc events) = some collapsed ∧
          mergePieces fns clean table (order.map fun e ↦ .of isCdc [e]) = some oneByOne ∧
          ∀ k, MergedAlike isCdc (eventsOf k events)
              (MergeInto.lookup (fun row ↦ row.key) k table)
              (MergeInto.lookup (fun row ↦ row.key) k collapsed)
              (MergeInto.lookup (fun row ↦ row.key) k oneByOne) ↔
            ¬Forgotten fns isCdc table events k :=
  ⟨rfl, fun V _ _ hne ↦ newerOrder V hne, isNewer_silverColumns_iff,
    fun _ _ _ he _ he' ↦ window_saysNewer fns he he',
    fun isCdc _ _ _ hkeys hperm ↦ mergedAlike_iff fns clean isCdc hkeys hperm⟩

end Tables

/-- A column of the row of a key after a batch is collapsed and merged. -/
def collapsedColumn {α : Type} (column : SilverRow ℤ ℤ → α) (isCdc : Bool)
    (table : List (SilverRow ℤ ℤ)) (events : List (BronzeEvent ℤ ℤ)) (k : ℤ) :
    Option (Option α) :=
  (mergePiece SparkFunctions.plain id table (.of isCdc events)).map fun rows ↦
    (MergeInto.lookup (fun row ↦ row.key) k rows).map column

/-- The column after the events are merged one by one. -/
def oneByOneColumn {α : Type} (column : SilverRow ℤ ℤ → α) (isCdc : Bool)
    (table : List (SilverRow ℤ ℤ)) (events : List (BronzeEvent ℤ ℤ)) (k : ℤ) :
    Option (Option α) :=
  (mergePieces SparkFunctions.plain id table (events.map fun e ↦ .of isCdc [e])).map fun rows ↦
    (MergeInto.lookup (fun row ↦ row.key) k rows).map column

/-- A CDC insert of key 7, before `cdcDelete`. -/
def cdcInsert : BronzeEvent ℤ ℤ :=
  { cdcReinsert with
    eventOccurredAt := some 15
    eventId := .text ['w']
    sourceLsn := some 4
    kafkaOffset := some 2 }

/-- A CDC event of the sequence of `cdcReinsert`, with a greater event id. -/
def cdcRival : BronzeEvent ℤ ℤ :=
  { cdcReinsert with
    payload := 300
    eventId := .text ['z'] }

/-- A Batch update of key 7, with another `created_at` than `batchInsert`. -/
def batchUpdate : BronzeEvent ℤ ℤ :=
  { batchInsert with
    createdAt := 12
    operation := .update
    eventOccurredAt := some 12
    eventId := .number 2 }

/-- **Collapsing is not always the same.** An insert and a later delete leave no row when collapsed,
and a row marked as deleted otherwise. Of two events with one sequence the window keeps the greater
event id, and the merge the first. A new row has the `created_at` of the event that inserted it, and
a row marked as deleted the business columns of the event before. -/
theorem not_forall_collapse_alike :
    (¬∀ (isCdc : Bool) (table : List (SilverRow ℤ ℤ)) (events : List (BronzeEvent ℤ ℤ)) (k : ℤ),
      collapsedColumn SilverRow.sequence isCdc table events k =
        oneByOneColumn SilverRow.sequence isCdc table events k) ∧
    (¬∀ (isCdc : Bool) (table : List (SilverRow ℤ ℤ)) (events : List (BronzeEvent ℤ ℤ)) (k : ℤ),
      (∀ e ∈ events, e.operation ≠ .delete) →
      collapsedColumn SilverRow.payload isCdc table events k =
        oneByOneColumn SilverRow.payload isCdc table events k) ∧
    (¬∀ (isCdc : Bool) (table : List (SilverRow ℤ ℤ)) (events : List (BronzeEvent ℤ ℤ)) (k : ℤ),
      DistinctSequences [.of isCdc events] → (∀ e ∈ events, e.operation ≠ .delete) →
      collapsedColumn SilverRow.createdAt isCdc table events k =
        oneByOneColumn SilverRow.createdAt isCdc table events k) ∧
    ¬∀ (isCdc : Bool) (table : List (SilverRow ℤ ℤ)) (events : List (BronzeEvent ℤ ℤ)) (k : ℤ),
      DistinctSequences [.of isCdc events] →
      (MergeInto.lookup (fun row ↦ row.key) k table).isSome = true →
      collapsedColumn SilverRow.payload isCdc table events k =
        oneByOneColumn SilverRow.payload isCdc table events k := by
  refine ⟨fun h ↦ ?_, fun h ↦ ?_, fun h ↦ ?_, fun h ↦ ?_⟩
  · exact absurd (h true [] [cdcInsert, cdcDelete] 7) (by decide)
  · exact absurd (h true [] [cdcReinsert, cdcRival] 7 (by decide)) (by decide)
  · exact absurd (h false [] [batchInsert, batchUpdate] 7 (by decide) (by decide)) (by decide)
  · exact absurd (h true [mergedRow .plain id batchInsert] [cdcInsert, cdcDelete] 7 (by decide)
      (by decide)) (by decide)

end LakehousePipeline
