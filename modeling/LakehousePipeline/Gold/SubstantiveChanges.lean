import LakehousePipeline.Gold.Builder
import LakehousePipeline.Silver.ChangeFeed

/-!
# Changes that move ingestion metadata only

A run drops the feed of a table when it has no insert, no delete, and no two images of one key with
different hashes of the business columns. With well-formed feeds this is sound: in every commit of
such a feed the images of a key that were taken out are as many as those put in, and they are all
alike, so the rows of the key were, up to their metadata, the same before and after. A change back
and forth, spread over commits or not, leaves two images that differ, and the feed is kept whole.
-/

namespace LakehousePipeline

/-! ### Feeds -/

section Feed

variable {P : Type}

/-- What the business hash of a row is taken of: its business columns and its deletion flag. -/
def SilverRow.state (row : SilverRow ℤ P) : BusinessRow ℤ P × Bool :=
  (row.business, row.isDeleted)

/-- The rows of a key, without their metadata. -/
def keyStates (rows : List (SilverRow ℤ P)) (key : ℤ) : List (BusinessRow ℤ P × Bool) :=
  (rows.filter fun row ↦ row.key = key).map SilverRow.state

/-- Images of the feed with one hash have the same business columns and deletion flag. -/
def HashApart (hash : BusinessRow ℤ P → Bool → Text) (feed : List (ChangeRow P)) : Prop :=
  ∀ c ∈ feed, ∀ d ∈ feed,
    hash c.row.business c.row.isDeleted = hash d.row.business d.row.isDeleted →
      c.row.state = d.row.state

variable {hash : BusinessRow ℤ P → Bool → Text} {feed : List (ChangeRow P)}

/-- All members of a list with at most one value are that value. -/
theorem eq_of_length_dedup_le_one {α : Type} [DecidableEq α] {l : List α}
    (h : l.dedup.length ≤ 1) {a b : α} (ha : a ∈ l) (hb : b ∈ l) : a = b := by
  rw [← List.mem_dedup] at ha hb
  obtain ⟨i, hi, rfl⟩ := List.mem_iff_getElem.1 ha
  obtain ⟨j, hj, rfl⟩ := List.mem_iff_getElem.1 hb
  have hij : i = j := by omega
  subst hij
  rfl

/-- Lists of one length whose members are all alike. -/
theorem eq_of_forall_eq {α : Type} {l l' : List α} (hlength : l.length = l'.length)
    (h : ∀ a ∈ l, ∀ b ∈ l', a = b) : l = l' := by
  refine List.ext_getElem hlength fun i hi hi' ↦ ?_
  exact h _ (List.getElem_mem hi) _ (List.getElem_mem hi')

/-- A feed that is dropped only has updates, and those of a key are all alike. -/
theorem of_not_isSubstantive (hapart : HashApart hash feed) (h : isSubstantive hash feed = false) :
    (∀ c ∈ feed, c.changeType = .updatePreimage ∨ c.changeType = .updatePostimage) ∧
      ∀ c ∈ feed, ∀ d ∈ feed, c.row.key = d.row.key → c.row.state = d.row.state := by
  rw [isSubstantive, Bool.or_eq_false_iff, List.any_eq_false, List.any_eq_false] at h
  obtain ⟨hdirect, hupdates⟩ := h
  refine ⟨fun c hc ↦ ?_, fun c hc d hd hkey ↦ ?_⟩
  · have hc' := hdirect c hc
    rcases htype : c.changeType with - | - | - | -
    · simp [htype] at hc'
    · exact Or.inl rfl
    · exact Or.inr rfl
    · simp [htype] at hc'
  · have hone := Nat.le_of_not_lt fun hlt ↦ hupdates d hd (decide_eq_true hlt)
    have hmem : ∀ e ∈ feed, e.row.key = d.row.key →
        hash e.row.business e.row.isDeleted ∈
          (feed.filter fun e ↦ e.row.key = d.row.key).map fun e ↦
            hash e.row.business e.row.isDeleted := fun e he hkey ↦
      List.mem_map_of_mem (List.mem_filter.2 ⟨he, decide_eq_true hkey⟩)
    exact hapart c hc d hd (eq_of_length_dedup_le_one hone (hmem c hc hkey) (hmem d hd rfl))

/-- **One commit**: its update images of a key are alike, so the rows of the key are what they
were. -/
theorem perm_keyStates_of_follows {c : SilverCommit P} {before : List (SilverRow ℤ P)}
    (hc : c.Follows before)
    (hupdates : ∀ d ∈ c.feed, d.changeType = .updatePreimage ∨ d.changeType = .updatePostimage)
    (hsame : ∀ d ∈ c.feed, ∀ e ∈ c.feed, d.row.key = e.row.key → d.row.state = e.row.state)
    (key : ℤ) : (keyStates c.rows key).Perm (keyStates before key) := by
  -- there are only updates
  have hold : images ChangeType.isOld c.feed = images (· = .updatePreimage) c.feed :=
    images_congr fun d hd ↦ by rcases hupdates d hd with h | h <;> rw [h] <;> rfl
  have hnew : images ChangeType.isNew c.feed = images (· = .updatePostimage) c.feed :=
    images_congr fun d hd ↦ by rcases hupdates d hd with h | h <;> rw [h] <;> rfl
  have haccounts := (hc.accounts.filter fun row ↦ row.key = key).map SilverRow.state
  refine (haccounts.perm_of_perm ?_).symm
  -- the images of the key are as many before as after
  have hlength : (keyStates (images ChangeType.isOld c.feed) key).length =
      (keyStates (images ChangeType.isNew c.feed) key).length := by
    have hpaired := hc.paired.count_eq key
    rw [← hold, ← hnew] at hpaired
    simpa [keyStates, List.count, List.countP_map, ← List.countP_eq_length_filter,
      Function.comp_def, beq_eq_decide] using hpaired
  have halike : ∀ a ∈ keyStates (images ChangeType.isOld c.feed) key,
      ∀ b ∈ keyStates (images ChangeType.isNew c.feed) key, a = b := by
    intro a ha b hb
    obtain ⟨row, hrow, rfl⟩ := List.mem_map.1 ha
    obtain ⟨row', hrow', rfl⟩ := List.mem_map.1 hb
    obtain ⟨himage, hkey⟩ := List.mem_filter.1 hrow
    obtain ⟨himage', hkey'⟩ := List.mem_filter.1 hrow'
    obtain ⟨d, hd, -, rfl⟩ := mem_images.1 himage
    obtain ⟨e, he, -, rfl⟩ := mem_images.1 himage'
    exact hsame d hd e he ((of_decide_eq_true hkey).trans (of_decide_eq_true hkey').symm)
  exact List.Perm.of_eq (eq_of_forall_eq hlength halike)

end Feed

/-! ### Ranges of commits -/

section Range

variable {lake : SilverLake} {t : SilverTable}
  {hash : BusinessRow ℤ (SilverColumns t) → Bool → Text} {start stop : ℕ}

/-- **Over a range that is dropped**, the rows of every key are what they were before it. -/
theorem perm_keyStates_of_range (hfed : lake.WellFed t)
    (hapart : HashApart hash (lake.readChanges t (start + 1) stop))
    (hdropped : isSubstantive hash (lake.readChanges t (start + 1) stop) = false) (key : ℤ)
    {version : ℕ} (hstart : start ≤ version) (hstop : version ≤ stop)
    (hexists : version < (lake.tables t).length) :
    (keyStates (lake.rowsAt t version) key).Perm (keyStates (lake.rowsAt t start) key) := by
  obtain ⟨hupdates, hsame⟩ := of_not_isSubstantive hapart hdropped
  induction version, hstart using Nat.le_induction with
  | base => exact List.Perm.refl _
  | succ version hle ih =>
    have hcommit := List.getElem?_eq_getElem hexists
    have hfollows := hfed version _ hcommit
    have hfeed : (lake.tables t)[version + 1].feed ⊆ lake.readChanges t (start + 1) stop := by
      intro c hc
      refine List.mem_flatMap.2 ⟨(lake.tables t)[version + 1], ?_, hc⟩
      refine List.mem_of_getElem? (i := version - start) ?_
      rw [List.getElem?_drop, List.getElem?_take_of_lt (by omega)]
      rw [show start + 1 + (version - start) = version + 1 by omega]
      exact hcommit
    have hstep := perm_keyStates_of_follows hfollows (fun d hd ↦ hupdates d (hfeed hd))
      (fun d hd e he ↦ hsame d (hfeed hd) e (hfeed he)) key
    have hrows : lake.rowsAt t (version + 1) = (lake.tables t)[version + 1].rows := by
      rw [SilverLake.rowsAt, TableLog.rowsAt, List.getElem?_map, hcommit]
      rfl
    rw [hrows]
    exact hstep.trans (ih (by omega) (by omega))

end Range

/-- **Dropping metadata-only changes is sound.** If the feed of a table since the active release is
dropped, the rows of every key are, in their business columns and their deletion flag, at every
version up to the last one what they were at the release. If a key differs at one of these versions,
the feed is kept with all its rows. -/
theorem changesSince_sound (hash : BusinessHash) (run : GoldRun) (previous : SilverTable → ℕ)
    (t : SilverTable) (hfed : run.lake.WellFed t)
    (hapart : HashApart (hash t)
      (run.lake.readChanges t (previous t + 1) (refreshedVersions run previous t))) :
    (changesSince hash run previous t = none →
      ∀ key version, previous t ≤ version → version ≤ refreshedVersions run previous t →
        version < (run.lake.tables t).length →
        (keyStates (run.lake.rowsAt t version) key).Perm
          (keyStates (run.lake.rowsAt t (previous t)) key)) ∧
    ((∃ key version, previous t ≤ version ∧ version ≤ refreshedVersions run previous t ∧
        version < (run.lake.tables t).length ∧
        ¬(keyStates (run.lake.rowsAt t version) key).Perm
          (keyStates (run.lake.rowsAt t (previous t)) key)) →
      changesSince hash run previous t =
        some (run.lake.readChanges t (previous t + 1) (refreshedVersions run previous t))) := by
  rcases Nat.lt_or_ge (previous t) (refreshedVersions run previous t) with hlt | hge
  · have hchanges : changesSince hash run previous t =
        (some (run.lake.readChanges t (previous t + 1) (refreshedVersions run previous t))).filter
          (isSubstantive (hash t)) :=
      congrArg (Option.filter (isSubstantive (hash t))) (if_pos hlt)
    rw [hchanges, Option.filter_some]
    rcases hkept : isSubstantive (hash t)
      (run.lake.readChanges t (previous t + 1) (refreshedVersions run previous t)) with - | -
    · refine ⟨fun _ key version hstart hstop hexists ↦
        perm_keyStates_of_range hfed hapart hkept key hstart hstop hexists, ?_⟩
      rintro ⟨key, version, hstart, hstop, hexists, hdiffers⟩
      exact absurd (perm_keyStates_of_range hfed hapart hkept key hstart hstop hexists) hdiffers
    · exact ⟨nofun, fun _ ↦ rfl⟩
  · -- the table has no commit since the release
    have hsame : ∀ version, previous t ≤ version → version ≤ refreshedVersions run previous t →
        version = previous t := fun version hstart hstop ↦ by omega
    refine ⟨fun _ key version hstart hstop _ ↦ ?_, ?_⟩
    · rw [hsame version hstart hstop]
    · rintro ⟨key, version, hstart, hstop, -, hdiffers⟩
      rw [hsame version hstart hstop] at hdiffers
      exact absurd (List.Perm.refl _) hdiffers

/-! ### A change back and forth -/

/-- A merge of one shop over another state of it. -/
def shopMerge (before after : SilverRow ℤ ShopColumns) : SilverCommit ShopColumns :=
  ⟨[after], mergeFeed [before] [after], some .cdcToSilver⟩

theorem follows_shopMerge {before after : SilverRow ℤ ShopColumns} (hkey : after.key = before.key) :
    (shopMerge before after).Follows [before] :=
  follows_merge _ (List.nodup_singleton _) (List.nodup_singleton _) fun row hrow ↦
    ⟨after, List.mem_singleton_self _, by rw [List.mem_singleton.1 hrow, hkey]⟩

/-- The shop of the small lake, with the metadata of a later event. -/
def laterShop (name : Char) : SilverRow ℤ ShopColumns :=
  { smallRow 7 (smallShop name) with ingestionPriority := 2 }

/-- The small lake after its shop had its metadata moved, was renamed, and renamed back. -/
def renamedBackLake : SilverLake :=
  smallLake
    [shopMerge (smallRow 7 (smallShop 'a')) (laterShop 'a'),
      shopMerge (laterShop 'a') (laterShop 'b'), shopMerge (laterShop 'b') (laterShop 'a')] [] [] []

theorem wellFed_renamedBackLake : renamedBackLake.WellFed .shops := by
  have hfirst : (smallLake [] [] [] []).WellFed .shops := by
    intro version c hc
    cases hc
  have hmoved : (smallLake [shopMerge (smallRow 7 (smallShop 'a')) (laterShop 'a')]
      [] [] []).WellFed .shops :=
    hfirst.concat rfl (follows_shopMerge rfl)
  have hrenamed : (smallLake [shopMerge (smallRow 7 (smallShop 'a')) (laterShop 'a'),
      shopMerge (laterShop 'a') (laterShop 'b')] [] [] []).WellFed .shops :=
    hmoved.concat rfl (follows_shopMerge rfl)
  exact hrenamed.concat rfl (follows_shopMerge rfl)

/-- The shop ends as it began, and the feed is kept for what it was in between. -/
theorem changesSince_sound_renamedBack :
    (keyStates (renamedBackLake.rowsAt .shops 3) 7).Perm
        (keyStates (renamedBackLake.rowsAt .shops 0) 7) ∧
      changesSince smallHash (smallRun renamedBackLake false) (fun _ ↦ 0) .shops =
        some (renamedBackLake.readChanges .shops 1 3) :=
  ⟨List.Perm.refl _,
    (changesSince_sound smallHash (smallRun renamedBackLake false) (fun _ ↦ 0) .shops
    wellFed_renamedBackLake (by
      show ∀ c ∈ renamedBackLake.readChanges .shops 1 3,
        ∀ d ∈ renamedBackLake.readChanges .shops 1 3, _
      decide +kernel)).2
    ⟨7, 2, by decide +kernel⟩⟩

/-- While only its metadata had moved, the feed was dropped. -/
example : changesSince smallHash
    (smallRun (smallLake [shopMerge (smallRow 7 (smallShop 'a')) (laterShop 'a')] [] [] []) false)
    (fun _ ↦ 0) .shops = none := by decide +kernel

end LakehousePipeline
