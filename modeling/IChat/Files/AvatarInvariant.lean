import IChat.Files.AvatarSteps

/-!
# The invariant of the avatar tables

`AvatarDbInv` says where the public keys come from, which of them have facts, and what is shown and
what is retired; one asset may be on its way from the one to the other. Quiet transactions keep it.
The commit of an upload, a take-down and a deactivation are put together from `publish`, `unlink`
and `retire`.
-/

namespace IChat.Files

/-- The asset is what a user shows: it is not being deleted, no fact names its objects, and they
come from an upload of the user that has succeeded. -/
structure Shown (origin : ℕ → Option ℕ) (db : FileDb) (userId fileId : ℕ) : Prop where
  file : ∃ file, db.files.get? fileId = some file ∧ file.purpose = .avatar ∧
    file.deletionStartedAt = none
  objects : ∀ o ∈ db.objects, o.fileId = fileId → ¬db.HasFact o.objectKey ∧
    ∃ i u, origin o.objectKey = some i ∧ db.uploads.get? i = some u ∧ u.status = .succeeded ∧
      u.userId = userId

/-- The asset is going. -/
structure Retired (db : FileDb) (file : FileAsset) : Prop where
  started : file.deletionStartedAt ≠ none
  facts : ∀ o ∈ db.objects, o.fileId = file.id → db.HasFact o.objectKey

/-- The invariant of the database. `leaving` is an asset that its user does not show any more, and
that is not retired yet. -/
structure AvatarDbInv (origin : ℕ → Option ℕ) (nextKey : ℕ) (leaving : Option ℕ) (db : AvatarDb) :
    Prop where
  generated : ∀ k i, origin k = some i → k < nextKey
  legacy : ∀ userId k, (db.avatars userId).avatarObjectKey = some k →
    origin k = none ∧ k < nextKey
  keys : db.KeysOf origin
  facts : ∀ k, db.HasFact k → k < nextKey ∧ ∀ i, origin k = some i →
    ∃ u, db.uploads.get? i = some u ∧ u.status.isActive = false
  objects : ∀ o ∈ db.objects, o.storageLocation = .avatarPublic ∧ o.fileId < db.files.next ∧
    ∃ i u, origin o.objectKey = some i ∧ db.uploads.get? i = some u ∧ u.status.isActive = false
  objectKeys : ∀ o ∈ db.objects, ∀ o' ∈ db.objects, o.objectKey = o'.objectKey → o = o'
  stored : ∀ file ∈ db.files, ∃ o ∈ db.objects, o.fileId = file.id
  inactive : ∀ userId, db.isActiveUser userId = false →
    (db.avatars userId).avatarFileId = none ∧
      ∀ u ∈ db.uploads, u.userId = userId → u.purpose = .avatar → u.status.isActive = false
  shown : ∀ userId fileId, (db.avatars userId).avatarFileId = some fileId →
    Shown origin db.toFileDb userId fileId
  leaves : ∀ fileId, leaving = some fileId →
    ∀ userId, (db.avatars userId).avatarFileId ≠ some fileId
  retired : ∀ file ∈ db.files, leaving ≠ some file.id →
    (∀ userId, (db.avatars userId).avatarFileId ≠ some file.id) → Retired db.toFileDb file

namespace AvatarDbInv

variable {origin : ℕ → Option ℕ} {nextKey : ℕ} {leaving : Option ℕ} {db : AvatarDb} {db' : FileDb}
  {userId fileId k now : ℕ}

/-- **Quiet transactions** keep the invariant. -/
theorem quiet (h : AvatarDbInv origin nextKey leaving db) (hq : Quiet origin db.toFileDb db') :
    AvatarDbInv origin nextKey leaving { db with toFileDb := db' } := by
  have husers := FileDb.isActiveUser_congr hq.inactiveUsers
  have hover : ∀ i u, db.uploads.get? i = some u → u.status.isActive = false →
      ∃ u', db'.uploads.get? i = some u' ∧ u'.status.isActive = false := by
    intro i u hu hactive
    obtain ⟨u', hu', hfollows⟩ := hq.rows i u hu
    exact ⟨u', hu', (hfollows.ended hactive).1⟩
  refine ⟨h.generated, h.legacy, hq.keys h.keys, fun k hk => ?_, fun o ho => ?_, ?_, ?_,
    fun userId huser => ?_, fun userId fileId hshown => ?_, h.leaves,
    fun file hfile hnot hnobody => ?_⟩
  · rcases hq.added k hk with hold | ⟨i, u, horigin, hu, hgone, -⟩
    · obtain ⟨hlt, hrow⟩ := h.facts k hold
      refine ⟨hlt, fun i horigin => ?_⟩
      obtain ⟨u, hu, hactive⟩ := hrow i horigin
      exact hover i u hu hactive
    · refine ⟨h.generated k i horigin, fun j hj => ?_⟩
      obtain rfl : i = j := Option.eq_some_unique horigin hj
      exact ⟨u, hu, hgone⟩
  · rw [hq.objects] at ho
    obtain ⟨hlocation, hlt, i, u, horigin, hu, hactive⟩ := h.objects o ho
    obtain ⟨u', hu', hactive'⟩ := hover i u hu hactive
    refine ⟨hlocation, ?_, i, u', horigin, hu', hactive'⟩
    show o.fileId < db'.files.next
    rw [hq.files]
    exact hlt
  · show ∀ o ∈ db'.objects, ∀ o' ∈ db'.objects, o.objectKey = o'.objectKey → o = o'
    rw [hq.objects]
    exact h.objectKeys
  · show ∀ file ∈ db'.files, ∃ o ∈ db'.objects, o.fileId = file.id
    rw [hq.objects, hq.files]
    exact h.stored
  · have huser' : db.isActiveUser userId = false := (husers userId).symm.trans huser
    obtain ⟨hnone, hrows⟩ := h.inactive userId huser'
    refine ⟨hnone, fun u hu howner hpurpose => ?_⟩
    -- a step starts an upload for an active user alone
    cases hactive : u.status.isActive with
    | false => rfl
    | true =>
      rcases hq.active u hu hpurpose hactive with ⟨v, hv, hvuser, hvpurpose, hvactive⟩ | hactiveUser
      · rw [hrows v hv (hvuser.trans howner) hvpurpose] at hvactive
        cases hvactive
      · rw [howner, huser'] at hactiveUser
        cases hactiveUser
  · obtain ⟨hfile, hobjects⟩ := h.shown userId fileId hshown
    have huser : db.isActiveUser userId = true := by
      cases hu : db.isActiveUser userId with
      | true => rfl
      | false =>
        rw [(h.inactive userId hu).1] at hshown
        cases hshown
    refine ⟨by rw [hq.files]; exact hfile, fun o ho heq => ?_⟩
    rw [hq.objects] at ho
    obtain ⟨hnofact, i, u, horigin, hu, hsucc, howner⟩ := hobjects o ho heq
    obtain ⟨u', hu', hfollows⟩ := hq.rows i u hu
    have hsucc' := hfollows.succeeded hsucc (by rw [howner]; exact huser)
    refine ⟨fun hfact => ?_, i, u', horigin, hu', hsucc', hfollows.userId.trans howner⟩
    rcases hq.added _ hfact with hold | ⟨j, v, hj, hv, -, hgone⟩
    · exact hnofact hold
    · -- the fact is about the upload the avatar comes from
      obtain rfl : i = j := Option.eq_some_unique horigin hj
      obtain rfl : u' = v := Option.eq_some_unique hu' hv
      have hinactive := hgone hsucc'
      rw [hfollows.userId, howner, huser] at hinactive
      cases hinactive
  · rw [hq.files] at hfile
    obtain ⟨hstarted, hfacts⟩ := h.retired file hfile hnot hnobody
    refine ⟨hstarted, fun o ho heq => ?_⟩
    rw [hq.objects] at ho
    exact hq.kept _ (hfacts o ho heq)

/-- No two users show the same asset. -/
theorem eq_of_shown (h : AvatarDbInv origin nextKey leaving db) {userId' : ℕ}
    (hshown : (db.avatars userId).avatarFileId = some fileId)
    (hshown' : (db.avatars userId').avatarFileId = some fileId) : userId = userId' := by
  obtain ⟨⟨file, hfile, -⟩, hobjects⟩ := h.shown userId fileId hshown
  obtain ⟨hmem, rfl⟩ := Table.get?_eq_some_iff.mp hfile
  obtain ⟨o, ho, heq⟩ := h.stored file hmem
  obtain ⟨-, i, u, horigin, hu, -, howner⟩ := hobjects o ho heq
  obtain ⟨-, j, v, horigin', hv, -, howner'⟩ := (h.shown userId' file.id hshown').objects o ho heq
  obtain rfl : i = j := Option.eq_some_unique horigin horigin'
  obtain rfl : u = v := Option.eq_some_unique hu hv
  exact howner.symm.trans howner'

/-- Facts about keys that are not shown, and whose uploads are over. -/
theorem enqueue {targets : List DeletionTarget} (h : AvatarDbInv origin nextKey leaving db)
    (hkeys : ∀ t ∈ targets, t.objectKey < nextKey ∧ ∀ i, origin t.objectKey = some i →
      ∃ u, db.uploads.get? i = some u ∧ u.status.isActive = false)
    (hshown : ∀ t ∈ targets, ∀ userId fileId, (db.avatars userId).avatarFileId = some fileId →
      ∀ o ∈ db.objects, o.fileId = fileId → t.objectKey ≠ o.objectKey) :
    AvatarDbInv origin nextKey leaving
      { db with toFileDb := db.enqueueDeletions targets now } := by
  have hother : FileDb.OnlyFacts db.toFileDb (db.enqueueDeletions targets now) :=
    FileDb.enqueueDeletions_onlyFacts
  have hfacts : ∀ k, (db.enqueueDeletions targets now).HasFact k ↔ db.HasFact k ∨
      ∃ t ∈ targets, t.storageLocation = .avatarPublic ∧ t.objectKey = k :=
    fun k => FileDb.hasFact_enqueueDeletions k
  refine ⟨h.generated, h.legacy, ?_, fun k hk => ?_, ?_, ?_, ?_, ?_,
    fun userId fileId hfile => ⟨?_, fun o ho heq => ⟨fun hfact => ?_, ?_⟩⟩, h.leaves,
    fun file hfile hnot hnobody => ⟨?_, fun o ho heq => ?_⟩⟩ <;>
    simp only [hother.uploads, hother.files, hother.objects, FileDb.KeysOf,
      FileDb.isActiveUser_congr hother.inactiveUsers] at *
  · exact h.keys
  · rcases (hfacts k).mp hk with hold | ⟨t, ht, -, rfl⟩
    · exact h.facts k hold
    · exact hkeys t ht
  · exact h.objects
  · exact h.objectKeys
  · exact h.stored
  · exact h.inactive
  · exact (h.shown userId fileId hfile).file
  · rcases (hfacts _).mp hfact with hold | ⟨t, ht, -, hkey⟩
    · exact ((h.shown userId fileId hfile).objects o ho heq).1 hold
    · exact hshown t ht userId fileId hfile o ho heq hkey
  · exact ((h.shown userId fileId hfile).objects o ho heq).2
  · exact (h.retired file hfile hnot hnobody).started
  · exact (hfacts _).mpr (.inl ((h.retired file hfile hnot hnobody).facts o ho heq))

/-- The row of the asset that leaves is written. -/
theorem mark {file marked : FileAsset} (h : AvatarDbInv origin nextKey (some file.id) db)
    (hmem : file ∈ db.files) (hid : marked.id = file.id) :
    AvatarDbInv origin nextKey (some file.id) { db with files := db.files.set marked } := by
  have hget : ∀ id ≠ file.id, (db.files.set marked).get? id = db.files.get? id := by
    intro id hne
    rw [Table.get?_set ⟨file, hmem, hid.symm⟩, if_neg (by rwa [hid])]
  refine { h with
    objects := fun o ho => h.objects o ho
    stored := fun f hf => ?_
    inactive := h.inactive
    shown := fun userId id hshown => ⟨?_, (h.shown userId id hshown).objects⟩
    retired := fun f hf hnot hnobody => ?_ }
  · rcases Table.of_mem_set hf with rfl | ⟨hf, -⟩
    · rw [hid]
      exact h.stored file hmem
    · exact h.stored f hf
  · have hne : id ≠ file.id := by
      rintro rfl
      exact h.leaves file.id rfl userId hshown
    obtain ⟨f, hf, hrest⟩ := (h.shown userId id hshown).file
    exact ⟨f, (hget id hne).trans hf, hrest⟩
  · rcases Table.of_mem_set hf with rfl | ⟨hf, -⟩
    · exact absurd (congrArg some hid.symm) hnot
    · obtain ⟨hstarted, hfacts⟩ := h.retired f hf hnot hnobody
      exact ⟨hstarted, hfacts⟩

/-- The asset that leaves is retired. -/
theorem left {file : FileAsset} (h : AvatarDbInv origin nextKey (some file.id) db)
    (hmem : file ∈ db.files) (hretired : Retired db.toFileDb file) :
    AvatarDbInv origin nextKey none db := by
  refine { h with
    leaves := fun _ hnone => by cases hnone
    retired := fun f hf _ hnobody => ?_ }
  by_cases heq : f.id = file.id
  · obtain rfl := Table.eq_of_key_eq hf hmem heq
    exact hretired
  · exact h.retired f hf (fun hsame => heq (Option.some.inj hsame).symm) hnobody

/-- The objects of an asset that nobody shows may be deleted. -/
theorem enqueueObjects {file : FileAsset} (h : AvatarDbInv origin nextKey (some file.id) db) :
    AvatarDbInv origin nextKey (some file.id) { db with
      toFileDb := db.enqueueDeletions ((db.objectsOf file.id).map
        FileObject.avatarTarget) now } := by
  have htargets : ∀ t ∈ (db.objectsOf file.id).map FileObject.avatarTarget,
      ∃ o ∈ db.objects, o.fileId = file.id ∧ t.objectKey = o.objectKey := by
    intro t ht
    obtain ⟨o, ho, rfl⟩ := List.mem_map.mp ht
    obtain ⟨hmem, heq⟩ := List.mem_filter.mp ho
    exact ⟨o, hmem, of_decide_eq_true heq, rfl⟩
  refine h.enqueue (fun t ht => ?_) fun t ht userId fileId hshown o ho heq hsame => ?_
  · obtain ⟨o, ho, -, hkey⟩ := htargets t ht
    obtain ⟨-, -, i, u, horigin, hu, hover⟩ := h.objects o ho
    rw [hkey]
    refine ⟨h.generated _ i horigin, fun j hj => ?_⟩
    obtain rfl : i = j := Option.eq_some_unique horigin hj
    exact ⟨u, hu, hover⟩
  · -- a shown object with the key would be this object
    obtain ⟨o', ho', heq', hkey⟩ := htargets t ht
    obtain rfl := h.objectKeys o ho o' ho' (hsame.symm.trans hkey)
    obtain rfl : fileId = file.id := heq.symm.trans heq'
    exact h.leaves file.id rfl userId hshown

/-- **Retiring** the avatar that leaves, or a legacy object. -/
theorem retire {objectKey : Option ℕ} (h : AvatarDbInv origin nextKey leaving db)
    (hfile : ∀ fileId, leaving = some fileId →
      ∃ file, db.files.get? fileId = some file ∧ file.deletionStartedAt = none)
    (hkey : ∀ k, objectKey = some k → origin k = none ∧ k < nextKey) :
    AvatarDbInv origin nextKey none
      { db with toFileDb := db.retireAvatar leaving objectKey now } := by
  cases leaving with
  | none =>
    cases objectKey with
    | none => exact h
    | some k =>
      obtain ⟨hnone, hlt⟩ := hkey k rfl
      have hone : db.retireAvatar none (some k) now =
          db.enqueueDeletions [⟨none, .avatarPublic, k⟩] now := rfl
      rw [hone]
      refine h.enqueue (fun t ht => ?_) fun t ht userId fileId hshown o ho heq hsame => ?_
      · rw [List.mem_singleton.mp ht]
        refine ⟨hlt, fun i hi => ?_⟩
        rw [hnone] at hi
        cases hi
      · rw [List.mem_singleton.mp ht] at hsame
        obtain ⟨-, i, u, horigin, -⟩ := (h.shown userId fileId hshown).objects o ho heq
        rw [← hsame, hnone] at horigin
        cases horigin
  | some fileId =>
    obtain ⟨file, hget, hstarted⟩ := hfile fileId rfl
    obtain ⟨hmem, rfl⟩ := Table.get?_eq_some_iff.mp hget
    let marked : FileAsset := { file with deletionStartedAt := some now }
    let db₁ : AvatarDb := { db with files := db.files.set marked }
    have hretire : db.retireAvatar (some file.id) objectKey now =
        db₁.enqueueDeletions ((db₁.objectsOf marked.id).map FileObject.avatarTarget) now := by
      simp only [FileDb.retireAvatar, hget]
      unfold FileDb.beginAvatarAssetDeletion
      rw [if_neg (by simp [hstarted])]
    have hkey : file.id = marked.id := rfl
    have hmem₁ : marked ∈ db₁.files := (Table.mem_set ⟨file, hmem, hkey⟩).mpr (.inl rfl)
    have hmarked : AvatarDbInv origin nextKey (some marked.id) db₁ := h.mark hmem rfl
    have hother : FileDb.OnlyFacts db₁.toFileDb (db₁.enqueueDeletions
        ((db₁.objectsOf marked.id).map FileObject.avatarTarget) now) :=
      FileDb.enqueueDeletions_onlyFacts
    have hdone : AvatarDbInv origin nextKey (some marked.id) { db₁ with
        toFileDb := db₁.enqueueDeletions
          ((db₁.objectsOf marked.id).map FileObject.avatarTarget) now } := hmarked.enqueueObjects
    rw [hretire]
    refine hdone.left (hother.files ▸ hmem₁) ⟨by simp [marked], fun o ho heq => ?_⟩
    rw [hother.objects] at ho
    refine (FileDb.hasFact_enqueueDeletions _).mpr (.inr ⟨o.avatarTarget, ?_, rfl, rfl⟩)
    exact List.mem_map_of_mem (List.mem_filter.mpr ⟨ho, by simpa using heq⟩)

/-- The avatar of a user, as it is before it leaves. -/
theorem file_of_shown (h : AvatarDbInv origin nextKey none db)
    (hshown : (db.avatars userId).avatarFileId = some fileId) :
    ∃ file, db.files.get? fileId = some file ∧ file.deletionStartedAt = none := by
  obtain ⟨file, hfile, -, hstarted⟩ := (h.shown userId fileId hshown).file
  exact ⟨file, hfile, hstarted⟩

/-- A user loses the avatar. -/
theorem unlink (h : AvatarDbInv origin nextKey none db) (userId : ℕ) :
    AvatarDbInv origin nextKey (db.avatars userId).avatarFileId
      (db.setAvatar userId ⟨none, none⟩) := by
  have hkept : ∀ v fileId, ((db.setAvatar userId ⟨none, none⟩).avatars v).avatarFileId =
      some fileId → v ≠ userId ∧ (db.avatars v).avatarFileId = some fileId := by
    intro v fileId hv
    by_cases hne : v = userId
    · subst hne
      rw [AvatarDb.avatars_setAvatar_self] at hv
      cases hv
    · rw [AvatarDb.avatars_setAvatar_of_ne _ _ hne] at hv
      exact ⟨hne, hv⟩
  refine { h with
    legacy := fun v k hk => ?_
    objects := h.objects
    inactive := fun v hv => ⟨?_, (h.inactive v hv).2⟩
    shown := fun v fileId hv => h.shown v fileId (hkept v fileId hv).2
    leaves := fun fileId hold v hv => ?_
    retired := fun file hfile hnot hnobody => h.retired file hfile (fun hnone => by cases hnone)
      fun v hv => ?_ }
  · by_cases hne : v = userId
    · subst hne
      rw [AvatarDb.avatars_setAvatar_self] at hk
      cases hk
    · rw [AvatarDb.avatars_setAvatar_of_ne _ _ hne] at hk
      exact h.legacy v k hk
  · cases hshown : ((db.setAvatar userId ⟨none, none⟩).avatars v).avatarFileId with
    | none => rfl
    | some fileId =>
      have hold := (hkept v fileId hshown).2
      rw [(h.inactive v hv).1] at hold
      cases hold
  · obtain ⟨hne, hv⟩ := hkept v fileId hv
    exact hne (h.eq_of_shown hv hold)
  · by_cases hne : v = userId
    · subst hne
      exact hnot hv
    · refine hnobody v ?_
      rw [AvatarDb.avatars_setAvatar_of_ne _ _ hne]
      exact hv

/-- The account of a user without an avatar and without active uploads is deactivated. -/
theorem deactivated (h : AvatarDbInv origin nextKey leaving db)
    (hnone : (db.avatars userId).avatarFileId = none)
    (hover : ∀ u ∈ db.uploads, u.userId = userId → u.purpose = .avatar →
      u.status.isActive = false) :
    AvatarDbInv origin nextKey leaving
      { db with inactiveUsers := userId :: db.inactiveUsers } := by
  refine { h with
    objects := h.objects
    inactive := fun v hv => ?_
    shown := fun v fileId hshown =>
      ⟨(h.shown v fileId hshown).file, (h.shown v fileId hshown).objects⟩
    retired := fun file hfile hnot hnobody =>
      ⟨(h.retired file hfile hnot hnobody).started, (h.retired file hfile hnot hnobody).facts⟩ }
  by_cases heq : v = userId
  · subst heq
    exact ⟨hnone, hover⟩
  · refine h.inactive v ?_
    simpa [FileDb.isActiveUser, heq] using hv

/-- A key is generated for an upload. -/
theorem generate (h : AvatarDbInv origin nextKey leaving db) (i : ℕ) :
    AvatarDbInv (Function.update origin nextKey (some i)) (nextKey + 1) leaving db := by
  have hbelow : ∀ k < nextKey, Function.update origin nextKey (some i) k = origin k := by
    intro k hk
    exact Function.update_of_ne (by omega) _ _
  have hkept : ∀ k j, origin k = some j → Function.update origin nextKey (some i) k = some j := by
    intro k j hj
    rw [hbelow k (h.generated k j hj), hj]
  refine { h with
    generated := fun k j hj => ?_
    legacy := fun userId k hk => ?_
    keys := fun u hu e he => hkept _ _ (h.keys u hu e he)
    facts := fun k hk => ?_
    objects := fun o ho => ?_
    shown := fun userId fileId hshown => ⟨(h.shown userId fileId hshown).file, fun o ho heq => ?_⟩ }
  · by_cases hk : k = nextKey
    · omega
    · rw [Function.update_of_ne hk] at hj
      have hlt := h.generated k j hj
      omega
  · obtain ⟨hnone, hlt⟩ := h.legacy userId k hk
    rw [hbelow k hlt]
    exact ⟨hnone, by omega⟩
  · obtain ⟨hlt, hrow⟩ := h.facts k hk
    rw [hbelow k hlt]
    exact ⟨by omega, hrow⟩
  · obtain ⟨hlocation, hlt, j, u, horigin, hu, hover⟩ := h.objects o ho
    exact ⟨hlocation, hlt, j, u, hkept _ j horigin, hu, hover⟩
  · obtain ⟨hnofact, j, u, horigin, hu, hrest⟩ := (h.shown userId fileId hshown).objects o ho heq
    exact ⟨hnofact, j, u, hkept _ j horigin, hu, hrest⟩

/-- **Publishing** an avatar of an active user, from an upload that has succeeded. The old avatar
leaves. -/
theorem publish {entry : ManifestEntry} {i : ℕ} {u : FileUpload}
    (h : AvatarDbInv origin nextKey none db) (huser : db.isActiveUser userId = true)
    (horigin : origin entry.objectKey = some i) (hu : db.uploads.get? i = some u)
    (hsucc : u.status = .succeeded) (howner : u.userId = userId)
    (hnofact : ¬db.HasFact entry.objectKey)
    (hfresh : ∀ o ∈ db.objects, o.objectKey ≠ entry.objectKey) :
    AvatarDbInv origin nextKey (db.avatars userId).avatarFileId
      (db.publishAvatar userId entry) := by
  have hnew : ((db.publishAvatar userId entry).avatars userId) = ⟨some db.files.next, none⟩ :=
    AvatarDb.avatars_setAvatar_self ..
  have hother : ∀ v ≠ userId, (db.publishAvatar userId entry).avatars v = db.avatars v :=
    fun v hne => AvatarDb.avatars_setAvatar_of_ne _ _ hne
  -- no user shows a file of the new id yet
  have hbelow : ∀ v fileId, (db.avatars v).avatarFileId = some fileId →
      fileId ≠ db.files.next := by
    rintro v fileId hv rfl
    obtain ⟨file, hfile, -⟩ := (h.shown v _ hv).file
    rw [Table.get?_of_next_le le_rfl] at hfile
    cases hfile
  have hobjects : ∀ o ∈ (db.publishAvatar userId entry).objects, o ∈ db.objects ∨
      o.fileId = db.files.next ∧ o.objectKey = entry.objectKey ∧
        o.storageLocation = .avatarPublic ∧ o.id = db.objects.next := by
    intro o ho
    rcases Table.mem_insert.mp ho with ho | rfl
    · exact .inl ho
    · exact .inr ⟨rfl, rfl, rfl, rfl⟩
  have hfiles : ∀ fileId ≠ db.files.next,
      (db.publishAvatar userId entry).files.get? fileId = db.files.get? fileId :=
    fun fileId hne => Table.get?_insert.trans (if_neg hne)
  have hold : ∀ o ∈ db.objects, o ∈ (db.publishAvatar userId entry).objects :=
    fun o ho => Table.mem_insert.mpr (.inl ho)
  have hover : u.status.isActive = false := by
    rw [hsucc]
    rfl
  refine { h with
    legacy := fun v k hk => ?_
    objects := fun o ho => ?_
    objectKeys := fun o ho o' ho' heq => ?_
    stored := fun file hfile => ?_
    inactive := fun v hv => ⟨?_, (h.inactive v hv).2⟩
    shown := fun v fileId hv => ?_
    leaves := fun fileId hleaving v hv => ?_
    retired := fun file hfile hnot hnobody => ?_ }
  -- by cases: the publishing user's row, or one that is as it was
  · by_cases hne : v = userId
    · subst hne
      rw [hnew] at hk
      cases hk
    · rw [hother v hne] at hk
      exact h.legacy v k hk
  · rcases hobjects o ho with hin | ⟨hfile, hkey, hlocation, -⟩
    · obtain ⟨hlocation, hlt, hrest⟩ := h.objects o hin
      exact ⟨hlocation, Nat.lt_succ_of_lt hlt, hrest⟩
    · rw [hkey, hfile]
      exact ⟨hlocation, Nat.lt_succ_self _, i, u, horigin, hu, hover⟩
  · rcases hobjects o ho with hin | ⟨-, hkey, -, hid⟩ <;>
      rcases hobjects o' ho' with hin' | ⟨-, hkey', -, hid'⟩
    · exact h.objectKeys o hin o' hin' heq
    · exact absurd (heq.trans hkey') (hfresh o hin)
    · exact absurd (heq.symm.trans hkey) (hfresh o' hin')
    · exact Table.eq_of_key_eq ho ho' (hid.trans hid'.symm)
  · rcases Table.mem_insert.mp hfile with hin | rfl
    · obtain ⟨o, ho, heq⟩ := h.stored file hin
      exact ⟨o, hold o ho, heq⟩
    · exact ⟨_, Table.mem_insert.mpr (.inr rfl), rfl⟩
  · have hne : v ≠ userId := by
      rintro rfl
      rw [show (db.publishAvatar v entry).isActiveUser v = db.isActiveUser v from rfl, huser] at hv
      cases hv
    rw [hother v hne]
    exact (h.inactive v hv).1
  · by_cases hne : v = userId
    · subst hne
      rw [hnew] at hv
      cases hv
      refine ⟨⟨_, Table.get?_insert.trans (if_pos rfl), rfl, rfl⟩, fun o ho heq => ?_⟩
      rcases hobjects o ho with hin | ⟨-, hkey, -, -⟩
      · have hlt := (h.objects o hin).2.1
        omega
      · rw [hkey]
        exact ⟨hnofact, i, u, horigin, hu, hsucc, howner⟩
    · rw [hother v hne] at hv
      obtain ⟨hfile, hshown⟩ := h.shown v fileId hv
      refine ⟨by rw [hfiles fileId (hbelow v fileId hv)]; exact hfile, fun o ho heq => ?_⟩
      rcases hobjects o ho with hin | ⟨hnext, -⟩
      · exact hshown o hin heq
      · exact absurd (heq.symm.trans hnext) (hbelow v fileId hv)
  · by_cases hne : v = userId
    · subst hne
      rw [hnew] at hv
      exact hbelow v fileId hleaving (Option.some.inj hv).symm
    · rw [hother v hne] at hv
      exact hne (h.eq_of_shown hv hleaving)
  · rcases Table.mem_insert.mp hfile with hin | rfl
    · have hnobody' : ∀ v, (db.avatars v).avatarFileId ≠ some file.id := by
        intro v hv
        by_cases hne : v = userId
        · subst hne
          exact hnot hv
        · refine hnobody v ?_
          rw [hother v hne]
          exact hv
      obtain ⟨hstarted, hfacts⟩ := h.retired file hin (fun hnone => by cases hnone) hnobody'
      refine ⟨hstarted, fun o ho heq => ?_⟩
      rcases hobjects o ho with hin' | ⟨hnext, -⟩
      · exact hfacts o hin' heq
      · have hlt := db.files.lt_next file hin
        omega
    · exact absurd (congrArg UserAvatar.avatarFileId hnew) (hnobody userId)

end AvatarDbInv

/-! ### The transactions that change an avatar -/

/-- The rows of the uploads are kept, as far as attempts rely on them. -/
def FileDb.RowsKept (db db' : FileDb) : Prop :=
  ∀ i u, db.uploads.get? i = some u → ∃ u', db'.uploads.get? i = some u' ∧ db.Follows u u'

section Written

variable {row seen moved : FileUpload}

@[simp] theorem FileUpload.written_id : (row.written seen moved).id = row.id := rfl

@[simp] theorem FileUpload.written_userId : (row.written seen moved).userId = row.userId := rfl

@[simp] theorem FileUpload.written_purpose : (row.written seen moved).purpose = row.purpose := rfl

@[simp] theorem FileUpload.written_outputManifest :
    (row.written seen moved).outputManifest = row.outputManifest := rfl

theorem FileUpload.written_status (h : moved.status ≠ seen.status) :
    (row.written seen moved).status = moved.status := if_neg h

end Written

theorem FileDb.retireAvatar_uploads (db : FileDb) (fileId objectKey : Option ℕ) (now : ℕ) :
    (db.retireAvatar fileId objectKey now).uploads = db.uploads := by
  unfold FileDb.retireAvatar
  split
  · split
    · unfold FileDb.beginAvatarAssetDeletion
      split_ifs
      · rfl
      · exact FileDb.enqueueDeletions_onlyFacts.uploads
    · rfl
  · exact FileDb.enqueueDeletion_onlyFacts.uploads
  · rfl

namespace AvatarDbInv

variable {origin : ℕ → Option ℕ} {nextKey : ℕ} {db db' : AvatarDb} {userId now : ℕ}

/-- The asset of a user's avatar is there. -/
theorem filter_avatarFileId (h : AvatarDbInv origin nextKey none db) (userId : ℕ) :
    ((db.avatars userId).avatarFileId.filter fun fileId => (db.files.get? fileId).isSome) =
      (db.avatars userId).avatarFileId := by
  cases hshown : (db.avatars userId).avatarFileId with
  | none => rfl
  | some =>
    obtain ⟨file, hfile, -⟩ := h.file_of_shown hshown
    simp [Option.filter, hfile]

/-- **Taking down** an avatar that has not changed since it was read. -/
theorem takeDown (h : AvatarDbInv origin nextKey none db) (userId now : ℕ) :
    AvatarDbInv origin nextKey none
      (db.takeDownUserAvatar userId (db.avatars userId) now) := by
  unfold AvatarDb.takeDownUserAvatar
  split_ifs
  · exact h
  · have hwritten : ∀ o : Option ℕ, writtenColumn o none o = none := by
      intro o
      cases o <;> rfl
    dsimp only
    rw [h.filter_avatarFileId, hwritten, hwritten]
    exact (h.unlink userId).retire (fun _ => h.file_of_shown) (fun k hk => h.legacy userId k hk)

/-- **Deactivating** an account. -/
theorem deactivate (h : AvatarDbInv origin nextKey none db)
    (hdone : db.deactivateUserAvatar userId now = .ok db') :
    AvatarDbInv origin nextKey none db' ∧ db.RowsKept db'.toFileDb := by
  obtain ⟨files, huploads, hset⟩ := bind_eq_ok_iff.mp hdone
  cases hset
  obtain ⟨hquiet, hover⟩ := quiet_deactivateAvatarUploads h.keys huploads
  have hfirst : AvatarDbInv origin nextKey none { db with toFileDb := files } := h.quiet hquiet
  have hretired : AvatarDbInv origin nextKey none
      { ({ db with toFileDb := files } : AvatarDb).setAvatar userId ⟨none, none⟩ with
        toFileDb := files.retireAvatar (db.avatars userId).avatarFileId
          (db.avatars userId).avatarObjectKey now } :=
    (hfirst.unlink userId).retire (fun _ => hfirst.file_of_shown) (fun k hk => h.legacy userId k hk)
  have hrows := FileDb.retireAvatar_uploads files (db.avatars userId).avatarFileId
    (db.avatars userId).avatarObjectKey now
  rw [h.filter_avatarFileId userId]
  refine ⟨hretired.deactivated (congrArg UserAvatar.avatarFileId
    (AvatarDb.avatars_setAvatar_self _ userId ⟨none, none⟩)) fun u hu => ?_, fun i u hu => ?_⟩
  · have hmem : u ∈ (files.retireAvatar (db.avatars userId).avatarFileId
        (db.avatars userId).avatarObjectKey now).uploads := hu
    rw [hrows] at hmem
    exact hover u hmem
  · obtain ⟨u', hu', hfollows⟩ := hquiet.rows i u hu
    refine ⟨u', ?_, hfollows⟩
    show (files.retireAvatar (db.avatars userId).avatarFileId
      (db.avatars userId).avatarObjectKey now).uploads.get? i = some u'
    rw [hrows]
    exact hu'

/-- A late commit, or one for an inactive user, is quiet when its upload is over and nobody shows
what came of it. -/
theorem quiet_commitLost {row seen : FileUpload} {code : String} {moved : FileUpload}
    (hrow : db.uploads.get? seen.id = some row) (hgone : db.Gone row)
    (hkeys : ∀ e ∈ seen.entries, origin e.objectKey = some seen.id)
    (huser : db.isActiveUser row.userId = false) (hstatus : seen.status = .processing)
    (hmoved : transitionUpload seen .cancelled now (some code) = .ok moved) :
    Quiet origin db.toFileDb
      ((db.enqueueAvatarManifestDeletions seen now).setUpload (row.written seen moved)) := by
  obtain ⟨-, rfl⟩ := transitionUpload_eq_ok.mp hmoved
  have hcancelled : (row.written seen (seen.moved .cancelled now (some code))).status =
      .cancelled := by
    rw [FileUpload.written_status (by rw [FileUpload.moved_status, hstatus]; decide),
      FileUpload.moved_status]
  have hfacts : Quiet origin db.toFileDb (db.enqueueAvatarManifestDeletions seen now) :=
    Quiet.manifestFacts hrow hgone hkeys
  have huploads : (db.enqueueAvatarManifestDeletions seen now).uploads = db.uploads :=
    FileDb.enqueueDeletions_onlyFacts.uploads
  have hid : row.id = seen.id := Table.key_of_get? hrow
  refine hfacts.trans (Quiet.write (u := row) ?_ ⟨rfl, rfl, fun _ => ?_, fun _ hactive => ?_⟩ ?_
    fun e he => .inl he)
  · rw [huploads, FileUpload.written_id, hid]
    exact hrow
  · rw [hcancelled]
    exact ⟨rfl, fun h => by cases h⟩
  · rw [FileDb.isActiveUser_congr hfacts.inactiveUsers, huser] at hactive
    cases hactive
  · intro hactive
    rw [hcancelled] at hactive
    cases hactive

/-- **The final commit**, when the rows it has read are current as far as it matters. Afterwards its
upload is over. -/
theorem commit {owner : ℕ} {row seen : FileUpload} {manifest : List ManifestEntry}
    {answer : AvatarResult} (h : AvatarDbInv origin nextKey none db)
    (hrow : db.uploads.get? seen.id = some row) (huser : seen.userId = row.userId)
    (hpurpose : row.purpose = .avatar)
    (hkeys : ∀ e ∈ seen.entries, origin e.objectKey = some seen.id)
    (hmanifest : ∀ e ∈ manifest, origin e.objectKey = some seen.id)
    (htimely : db.isActiveUser seen.userId = true →
      if seen.status = .processing ∧ seen.leaseOwner = some owner then row.status.isActive = true
      else row.status.isActive = false ∧ row.status ≠ .succeeded)
    (hcommit : db.commitAvatarSuccess owner seen manifest now = .ok (db', answer)) :
    AvatarDbInv origin nextKey none db' ∧ db.RowsKept db'.toFileDb ∧
      ∃ row', db'.uploads.get? seen.id = some row' ∧ row'.status.isActive = false := by
  -- an upload that is over stays over, whatever is written
  have hafter : ∀ db₁ : FileDb, db.Gone row → Quiet origin db.toFileDb db₁ →
      AvatarDbInv origin nextKey none { db with toFileDb := db₁ } ∧ db.RowsKept db₁ ∧
        ∃ row', db₁.uploads.get? seen.id = some row' ∧ row'.status.isActive = false := by
    intro db₁ hgone hquiet
    obtain ⟨row', hrow', hfollows⟩ := hquiet.rows _ row hrow
    exact ⟨h.quiet hquiet, hquiet.rows, row', hrow', (hfollows.ended hgone.1).1⟩
  unfold AvatarDb.commitAvatarSuccess at hcommit
  rw [hrow] at hcommit
  dsimp only at hcommit
  split at hcommit
  · rename_i hlost
    have hgone : db.Gone row := by
      cases hactive : db.isActiveUser seen.userId with
      | true =>
        have hnot : ¬(seen.status = .processing ∧ seen.leaseOwner = some owner) := by
          rintro ⟨hstatus, howner⟩
          simp [hstatus, howner, hactive] at hlost
        have hover := htimely hactive
        rw [if_neg hnot] at hover
        exact ⟨hover.1, fun hsucc => absurd hsucc hover.2⟩
      | false =>
        refine ⟨(h.inactive _ hactive).2 row (Table.mem_of_get? hrow) huser.symm hpurpose,
          fun _ => ?_⟩
        rw [← huser]
        exact hactive
    split at hcommit
    · rename_i hheld
      obtain ⟨moved, hmoved, hset⟩ := bind_eq_ok_iff.mp hcommit
      cases hset
      have hinactive : db.isActiveUser row.userId = false := by
        rw [← huser]
        simpa [hheld.1, hheld.2] using hlost
      exact hafter _ hgone (quiet_commitLost hrow hgone hkeys hinactive hheld.1 hmoved)
    · cases hcommit
      exact hafter _ hgone (Quiet.manifestFacts hrow hgone hkeys)
  · rename_i hheld
    simp only [ne_eq, not_or, not_not, Bool.not_eq_false] at hheld
    obtain ⟨hstatus, howner, hactive⟩ := hheld
    have hrunning := htimely hactive
    rw [if_pos ⟨hstatus, howner⟩] at hrunning
    split at hcommit
    · cases hcommit
    · rename_i entry rest
      obtain ⟨-, hcommit⟩ := ite_error_eq_ok_iff.mp hcommit
      obtain ⟨moved, hmoved, hset⟩ := bind_eq_ok_iff.mp hcommit
      cases hset
      obtain ⟨-, rfl⟩ := transitionUpload_eq_ok.mp hmoved
      have hid : row.id = seen.id := Table.key_of_get? hrow
      have horigin := hmanifest entry List.mem_cons_self
      -- the upload is active, so there is neither a fact about its key nor an object with it
      have hnofact : ¬db.HasFact entry.objectKey := by
        intro hfact
        obtain ⟨u, hu, hover⟩ := (h.facts _ hfact).2 _ horigin
        rw [hrow] at hu
        cases hu
        rw [hrunning] at hover
        cases hover
      have hfresh : ∀ o ∈ db.objects, o.objectKey ≠ entry.objectKey := by
        intro o ho heq
        obtain ⟨-, -, i, u, hi, hu, hover⟩ := h.objects o ho
        rw [heq, horigin] at hi
        cases hi
        rw [hrow] at hu
        cases hu
        rw [hrunning] at hover
        cases hover
      let written := row.written seen
        (({ seen with fileId := some db.files.next } : FileUpload).moved .succeeded now none)
      have hsucc : written.status = .succeeded := by
        refine (FileUpload.written_status ?_).trans FileUpload.moved_status
        rw [FileUpload.moved_status, hstatus]
        decide
      have hkey : row.id = written.id := rfl
      have hquiet : Quiet origin db.toFileDb (db.setUpload written) :=
        Quiet.move (u := row) (by rw [← hkey, hid]; exact hrow) hrunning rfl rfl rfl
      have hu : (db.setUpload written).uploads.get? seen.id = some written := by
        refine (Table.get?_set ⟨row, Table.mem_of_get? hrow, hkey⟩).trans (if_pos ?_)
        rw [← hkey, hid]
      have hpublished : AvatarDbInv origin nextKey (db.avatars seen.userId).avatarFileId
          (({ db with toFileDb := db.setUpload written } : AvatarDb).publishAvatar seen.userId
            entry) :=
        (h.quiet hquiet).publish hactive horigin hu hsucc huser.symm hnofact hfresh
      have hnext : ∀ fileId, (db.avatars seen.userId).avatarFileId = some fileId →
          fileId ≠ db.files.next := by
        rintro fileId hshown rfl
        obtain ⟨file, hfile, -⟩ := h.file_of_shown hshown
        rw [Table.get?_of_next_le le_rfl] at hfile
        cases hfile
      have hold : ((db.avatars seen.userId).avatarFileId.filter (· ≠ db.files.next)) =
          (db.avatars seen.userId).avatarFileId := by
        cases hshown : (db.avatars seen.userId).avatarFileId with
        | none => rfl
        | some fileId => simp [Option.filter, hnext fileId hshown]
      rw [hold]
      refine ⟨hpublished.retire (fun fileId hshown => ?_) (fun k hk => ?_), fun i u hi => ?_,
        written, ?_, ?_⟩
      · obtain ⟨file, hfile, hstarted⟩ := h.file_of_shown hshown
        exact ⟨file, Table.get?_insert.trans ((if_neg (hnext fileId hshown)).trans hfile), hstarted⟩
      · exact h.legacy seen.userId k (Option.eq_some_of_filter_eq_some hk)
      · rw [FileDb.retireAvatar_uploads]
        exact hquiet.rows i u hi
      · rw [FileDb.retireAvatar_uploads]
        exact hu
      · rw [hsucc]
        rfl

end AvatarDbInv

end IChat.Files
