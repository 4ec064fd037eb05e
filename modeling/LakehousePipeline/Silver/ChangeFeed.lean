import LakehousePipeline.Library.ChangeFeed
import LakehousePipeline.Silver.Lake

/-!
# What a change data feed says

The feed of a commit accounts for its rows: the images of deleted rows and the images before an
update are the rows taken out, the inserted ones and the images after an update are the rows put in,
and an update keeps the key of its row. This is what Delta promises, whatever the commit was. It
holds of the two kinds of commits that write a Silver table, a merge (`follows_merge`) and an
overwrite (`follows_overwrite`), and of maintenance, which has an empty feed.

`SilverCommit.Follows` states this promise for one commit and `SilverLake.WellFed` for the log of a
table, with the exception of its first commit, which has no table before it. A log that grows by
commits that follow stays well fed (`WellFed.concat`), and so does one that grows by Silver steps
(`wellFed_silverStep`). Feeds are compared with rows as multisets: a feed has no order.
-/

namespace LakehousePipeline

/-! ### Images -/

/-- A row that was in the table before the commit. -/
def ChangeType.isOld : ChangeType → Bool
  | .updatePreimage | .delete => true
  | .insert | .updatePostimage => false

/-- A row that is in the table after the commit. -/
def ChangeType.isNew : ChangeType → Bool
  | .insert | .updatePostimage => true
  | .updatePreimage | .delete => false

section Images

variable {P : Type}

/-- The images of the given kinds. -/
def images (kind : ChangeType → Bool) (feed : List (ChangeRow P)) : List (SilverRow ℤ P) :=
  (feed.filter fun c ↦ kind c.changeType).map fun c ↦ c.row

/-- An empty feed has no images. -/
@[simp] theorem images_nil (kind : ChangeType → Bool) :
    images kind ([] : List (ChangeRow P)) = [] := rfl

/-- The images of two feeds. -/
@[simp] theorem images_append (kind : ChangeType → Bool) (feed feed' : List (ChangeRow P)) :
    images kind (feed ++ feed') = images kind feed ++ images kind feed' := by
  rw [images, List.filter_append, List.map_append]
  rfl

/-- An image is a row of the feed with its kind. -/
theorem mem_images {kind : ChangeType → Bool} {feed : List (ChangeRow P)} {row : SilverRow ℤ P} :
    row ∈ images kind feed ↔ ∃ c ∈ feed, kind c.changeType = true ∧ c.row = row := by
  rw [images, List.mem_map]
  simp only [List.mem_filter, and_assoc]

/-- Images of one kind only. -/
theorem images_map_of_pos {kind : ChangeType → Bool} {type : ChangeType} (h : kind type = true)
    (rows : List (SilverRow ℤ P)) :
    images kind (rows.map fun row ↦ (⟨type, row⟩ : ChangeRow P)) = rows := by
  rw [images, List.filter_eq_self.2, List.map_map]
  · exact List.map_id rows
  · rintro c hc
    obtain ⟨row, -, rfl⟩ := List.mem_map.1 hc
    exact h

/-- No image is of another kind. -/
theorem images_map_of_neg {kind : ChangeType → Bool} {type : ChangeType} (h : kind type = false)
    (rows : List (SilverRow ℤ P)) :
    images kind (rows.map fun row ↦ (⟨type, row⟩ : ChangeRow P)) = [] := by
  rw [images, List.filter_eq_nil_iff.2, List.map_nil]
  rintro c hc
  obtain ⟨row, -, rfl⟩ := List.mem_map.1 hc
  exact Bool.eq_false_iff.1 h

/-- Kinds that agree on the types of a feed. -/
theorem images_congr {kind kind' : ChangeType → Bool} {feed : List (ChangeRow P)}
    (h : ∀ c ∈ feed, kind c.changeType = kind' c.changeType) :
    images kind feed = images kind' feed := by
  rw [images, images, List.filter_congr h]

end Images

/-! ### Commits -/

/-- The commit comes after the given rows, and its feed says what it changed. -/
structure SilverCommit.Follows {P : Type} (c : SilverCommit P) (before : List (SilverRow ℤ P)) :
    Prop where
  /-- The feed accounts for the rows. -/
  accounts : ChangeFeed.Accounts before (images ChangeType.isOld c.feed)
    (images ChangeType.isNew c.feed) c.rows
  /-- Every update has an image before and one after it, of one key. -/
  paired : ((images (· = .updatePreimage) c.feed).map fun row ↦ row.key).Perm
    ((images (· = .updatePostimage) c.feed).map fun row ↦ row.key)

section Follows

variable {P : Type} {before after : List (SilverRow ℤ P)} (pipeline : Option SilverPipeline)

/-- Maintenance. -/
theorem follows_maintenance (h : before.Perm after) :
    (⟨after, [], pipeline⟩ : SilverCommit P).Follows before :=
  ⟨ChangeFeed.accounts_of_perm h, List.Perm.refl _⟩

/-- **An overwrite**, shown as deletes and inserts. -/
theorem follows_overwrite (before after : List (SilverRow ℤ P)) :
    (⟨after, overwriteFeed before after, pipeline⟩ : SilverCommit P).Follows before := by
  have himages : ∀ kind : ChangeType → Bool, images kind (overwriteFeed before after) =
      images kind (before.map fun row ↦ ⟨.delete, row⟩) ++
        images kind (after.map fun row ↦ ⟨.insert, row⟩) := fun kind ↦ images_append _ _ _
  refine ⟨?_, ?_⟩
  · show ChangeFeed.Accounts before (images ChangeType.isOld (overwriteFeed before after))
      (images ChangeType.isNew (overwriteFeed before after)) after
    rw [himages, himages, images_map_of_pos rfl, images_map_of_neg rfl,
      images_map_of_neg rfl, images_map_of_pos rfl, List.append_nil, List.nil_append]
    exact ChangeFeed.accounts_overwrite before after
  · show ((images (· = .updatePreimage) (overwriteFeed before after)).map _).Perm
      ((images (· = .updatePostimage) (overwriteFeed before after)).map _)
    rw [himages, himages, images_map_of_neg (by decide), images_map_of_neg (by decide),
      images_map_of_neg (by decide), images_map_of_neg (by decide)]

/-- The rows a merge finds are those before it, as it removes no key. -/
theorem perm_filterMap_lookup (hbefore : (before.map fun row ↦ row.key).Nodup)
    (hafter : (after.map fun row ↦ row.key).Nodup)
    (hkeys : ∀ row ∈ before, ∃ row' ∈ after, row'.key = row.key) :
    before.Perm (after.filterMap fun row ↦
      MergeInto.lookup (fun r : SilverRow ℤ P ↦ r.key) row.key before) := by
  have hfound : ((after.filterMap fun row ↦ MergeInto.lookup (fun r : SilverRow ℤ P ↦ r.key)
      row.key before).map fun row ↦ row.key).Nodup :=
    MergeInto.nodup_map_filterMap hafter fun _ _ _ hlookup ↦ (MergeInto.mem_of_lookup hlookup).2
  refine (List.perm_ext_iff_of_nodup hbefore.of_map hfound.of_map).2 fun old ↦
    ⟨fun hold ↦ ?_, fun hold ↦ ?_⟩
  · obtain ⟨row, hrow, hkey⟩ := hkeys old hold
    exact List.mem_filterMap.2
      ⟨row, hrow, (MergeInto.lookup_eq_some_iff hbefore).2 ⟨hold, hkey.symm⟩⟩
  · obtain ⟨row, -, hlookup⟩ := List.mem_filterMap.1 hold
    exact (MergeInto.mem_of_lookup hlookup).1

variable [DecidableEq P]

/-- The part of the feed of a merge for one row after it. -/
theorem mergeFeed_cons (before : List (SilverRow ℤ P)) (row : SilverRow ℤ P)
    (after : List (SilverRow ℤ P)) :
    mergeFeed before (row :: after) = mergeFeed before [row] ++ mergeFeed before after := by
  rw [mergeFeed, mergeFeed, mergeFeed, List.flatMap_cons, List.flatMap_singleton]

/-- The row was inserted, or is as it was, or was updated. -/
theorem mergeFeed_cases (before : List (SilverRow ℤ P)) (row : SilverRow ℤ P) :
    MergeInto.lookup (fun r : SilverRow ℤ P ↦ r.key) row.key before = none ∧
        mergeFeed before [row] = [⟨.insert, row⟩] ∨
      MergeInto.lookup (fun r : SilverRow ℤ P ↦ r.key) row.key before = some row ∧
        mergeFeed before [row] = [] ∨
      ∃ old, MergeInto.lookup (fun r : SilverRow ℤ P ↦ r.key) row.key before = some old ∧
        old.key = row.key ∧
        mergeFeed before [row] = [⟨.updatePreimage, old⟩, ⟨.updatePostimage, row⟩] := by
  rcases hlookup : MergeInto.lookup (fun r : SilverRow ℤ P ↦ r.key) row.key before with - | old
  · exact Or.inl ⟨rfl, by rw [mergeFeed, List.flatMap_singleton, hlookup]⟩
  · rcases eq_or_ne old row with rfl | hne
    · exact Or.inr
        (Or.inl ⟨rfl, by rw [mergeFeed, List.flatMap_singleton, hlookup]; exact if_pos rfl⟩)
    · exact Or.inr (Or.inr ⟨old, rfl, (MergeInto.mem_of_lookup hlookup).2,
        by rw [mergeFeed, List.flatMap_singleton, hlookup]; exact if_neg hne⟩)

/-- **A merge**: inserted rows, and both images of updated rows. -/
theorem follows_merge (hbefore : (before.map fun row ↦ row.key).Nodup)
    (hafter : (after.map fun row ↦ row.key).Nodup)
    (hkeys : ∀ row ∈ before, ∃ row' ∈ after, row'.key = row.key) :
    (⟨after, mergeFeed before after, pipeline⟩ : SilverCommit P).Follows before := by
  have hfound := perm_filterMap_lookup hbefore hafter hkeys
  refine ⟨ChangeFeed.Accounts.of_perm_left ?_ hfound, ?_⟩
  · show ChangeFeed.Accounts _ (images ChangeType.isOld (mergeFeed before after))
      (images ChangeType.isNew (mergeFeed before after)) after
    clear hfound hafter hkeys
    induction after with
    | nil => exact ChangeFeed.accounts_of_perm (List.Perm.refl _)
    | cons row after ih =>
      rw [mergeFeed_cons, images_append, images_append, ← List.singleton_append,
        List.filterMap_append]
      refine ChangeFeed.Accounts.append ?_ ih
      obtain ⟨hlookup, hfeed⟩ | ⟨hlookup, hfeed⟩ | ⟨old, hlookup, -, hfeed⟩ :=
        mergeFeed_cases before row
      · rw [hfeed, List.filterMap_cons, hlookup]
        exact List.Perm.refl [row]
      · rw [hfeed, List.filterMap_cons, hlookup]
        exact List.Perm.refl [row]
      · rw [hfeed, List.filterMap_cons, hlookup]
        exact List.Perm.swap row old []
  · show ((images (· = .updatePreimage) (mergeFeed before after)).map _).Perm
      ((images (· = .updatePostimage) (mergeFeed before after)).map _)
    clear hfound hafter hkeys
    induction after with
    | nil => exact List.Perm.refl _
    | cons row after ih =>
      rw [mergeFeed_cons, images_append, images_append, List.map_append, List.map_append]
      refine List.Perm.append ?_ ih
      obtain ⟨-, hfeed⟩ | ⟨-, hfeed⟩ | ⟨old, -, hkey, hfeed⟩ := mergeFeed_cases before row
      · rw [hfeed]
        exact List.Perm.refl []
      · rw [hfeed]
        exact List.Perm.refl []
      · rw [hfeed]
        show [old.key].Perm [row.key]
        rw [hkey]

end Follows

/-! ### Logs -/

namespace SilverLake

variable (lake : SilverLake) (t : SilverTable)

/-- The rows of a table at a version, tombstones included. -/
def rowsAt (version : ℕ) : List (SilverRow ℤ (SilverColumns t)) :=
  TableLog.rowsAt ((lake.tables t).map fun c ↦ c.rows) version

/-- The feed of every commit after the first says what the commit changed. -/
def WellFed : Prop :=
  ∀ version c, (lake.tables t)[version + 1]? = some c → c.Follows (lake.rowsAt t version)

variable {lake t}

/-- The current rows are those of the last commit. -/
theorem currentRows_eq_latestRows :
    lake.currentRows t = TableLog.latestRows ((lake.tables t).map fun c ↦ c.rows) := by
  rw [currentRows, TableLog.latestRows, List.getLast?_map]

/-- After a commit they are the rows it left. -/
theorem currentRows_concat {lake' : SilverLake} {c : SilverCommit (SilverColumns t)}
    (htables : lake'.tables t = lake.tables t ++ [c]) : lake'.currentRows t = c.rows := by
  rw [currentRows, htables, List.getLast?_concat]
  rfl

/-- The rows at a version of a log that has grown. -/
theorem rowsAt_concat {lake' : SilverLake} {c : SilverCommit (SilverColumns t)}
    (htables : lake'.tables t = lake.tables t ++ [c]) {version : ℕ}
    (hversion : version < (lake.tables t).length) :
    lake'.rowsAt t version = lake.rowsAt t version := by
  refine TableLog.rowsAt_of_extends ?_ ?_
  · rw [htables, List.map_append]
    exact List.prefix_append _ _
  · rw [List.length_map]
    exact hversion

/-- **One more commit** that says what it changed. -/
theorem WellFed.concat (h : lake.WellFed t) {lake' : SilverLake}
    {c : SilverCommit (SilverColumns t)} (htables : lake'.tables t = lake.tables t ++ [c])
    (hc : c.Follows (lake.currentRows t)) : lake'.WellFed t := by
  intro version d hd
  rw [htables] at hd
  rcases Nat.lt_or_ge (version + 1) (lake.tables t).length with hlt | hge
  · rw [List.getElem?_append_left hlt] at hd
    rw [rowsAt_concat htables (by omega)]
    exact h version d hd
  · -- the version before the new one is the latest of the old log
    obtain ⟨hlt, -⟩ := List.getElem?_eq_some_iff.1 hd
    rw [List.length_append, List.length_singleton] at hlt
    have hversion : version + 1 = (lake.tables t).length := by omega
    rw [hversion, List.getElem?_concat_length] at hd
    obtain rfl := Option.some.inj hd
    rw [rowsAt_concat htables (by omega)]
    have hlatest : version = TableLog.latestVersion ((lake.tables t).map fun c ↦ c.rows) := by
      rw [TableLog.latestVersion, List.length_map]
      omega
    rwa [currentRows_eq_latestRows, ← TableLog.rowsAt_latestVersion, ← hlatest] at hc

end SilverLake

/-- **A Silver step keeps the feeds**: its merge removes no key. -/
theorem wellFed_silverStep {fns : SparkFunctions} {clean : Cleaning} {lake lake' : SilverLake}
    {t : SilverTable} {piece : SilverPiece ℤ (SilverColumns t)} (h : lake.WellFed t)
    (hkeys : ((lake.currentRows t).map fun row ↦ row.key).Nodup)
    (hstep : silverStep fns clean lake t piece = some lake') :
    lake'.WellFed t ∧ ((lake'.currentRows t).map fun row ↦ row.key).Nodup := by
  obtain ⟨rows, hmerge, rfl⟩ := Option.map_eq_some_iff.1 hstep
  obtain ⟨hrows, hmono⟩ := mergePiece_mono hkeys hmerge
  have htables := Function.update_self t (lake.tables t ++ [{
    rows := rows
    feed := mergeFeed (lake.currentRows t) rows
    pipeline := some (if piece.isCdc then .cdcToSilver else .bronzeToSilver) }]) lake.tables
  refine ⟨h.concat htables (follows_merge _ hkeys hrows fun row hrow ↦ ?_), ?_⟩
  · obtain ⟨row', hlookup, -⟩ := hmono row.key row
      ((MergeInto.lookup_eq_some_iff hkeys).2 ⟨hrow, rfl⟩)
    exact ⟨row', MergeInto.mem_of_lookup hlookup⟩
  · rw [SilverLake.currentRows_concat htables]
    exact hrows

end LakehousePipeline
