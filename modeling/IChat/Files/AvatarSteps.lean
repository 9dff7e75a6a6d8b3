import IChat.Files.Avatars

/-!
# Quiet transactions of the avatar workflow

What all transactions have in common that neither publish nor retire an avatar (`Quiet`): they leave
the assets alone, they move uploads forward, and they write facts about keys of uploads that are
over. A single row write is quiet under conditions that each transaction meets by its own guard
(`Quiet.move`, `Quiet.keep`, `Quiet.moveFacts`), and quiet transactions compose.
-/

namespace IChat.Files

/-- An upload that is over, and is no longer the source of anybody's avatar. -/
def FileDb.Gone (db : FileDb) (u : FileUpload) : Prop :=
  u.status.isActive = false ∧ (u.status = .succeeded → db.isActiveUser u.userId = false)

/-- How the row of an upload may change: an upload that is over stays over, and one that has
succeeded has succeeded for good while its user is active. -/
structure FileDb.Follows (db : FileDb) (u u' : FileUpload) : Prop where
  userId : u'.userId = u.userId
  purpose : u'.purpose = u.purpose
  ended : u.status.isActive = false →
    u'.status.isActive = false ∧ (u'.status = .succeeded → u.status = .succeeded)
  succeeded : u.status = .succeeded → db.isActiveUser u.userId = true → u'.status = .succeeded

/-- The keys of the manifests were generated for their uploads. -/
def FileDb.KeysOf (origin : ℕ → Option ℕ) (db : FileDb) : Prop :=
  ∀ u ∈ db.uploads, ∀ e ∈ u.entries, origin e.objectKey = some u.id

/-- What a transaction does that neither publishes nor retires an avatar. -/
structure Quiet (origin : ℕ → Option ℕ) (db db' : FileDb) : Prop where
  files : db'.files = db.files
  objects : db'.objects = db.objects
  inactiveUsers : db'.inactiveUsers = db.inactiveUsers
  rows : ∀ i u, db.uploads.get? i = some u → ∃ u', db'.uploads.get? i = some u' ∧ db.Follows u u'
  active : ∀ u' ∈ db'.uploads, u'.purpose = .avatar → u'.status.isActive = true →
    (∃ u ∈ db.uploads, u.userId = u'.userId ∧ u.purpose = .avatar ∧ u.status.isActive = true) ∨
      db.isActiveUser u'.userId = true
  keys : db.KeysOf origin → db'.KeysOf origin
  kept : ∀ k, db.HasFact k → db'.HasFact k
  added : ∀ k, db'.HasFact k → db.HasFact k ∨
    ∃ i u, origin k = some i ∧ db'.uploads.get? i = some u ∧ db.Gone u

section Quiet

variable {origin : ℕ → Option ℕ} {db db' db'' : FileDb} {u u' row : FileUpload}
  {targets : List DeletionTarget} {now k : ℕ}

theorem FileDb.isActiveUser_congr (h : db'.inactiveUsers = db.inactiveUsers) (userId : ℕ) :
    db'.isActiveUser userId = db.isActiveUser userId := by
  unfold FileDb.isActiveUser
  rw [h]

theorem FileDb.Follows.refl (db : FileDb) (u : FileUpload) : db.Follows u u :=
  ⟨rfl, rfl, fun h => ⟨h, id⟩, fun h _ => h⟩

theorem Quiet.refl (db : FileDb) : Quiet origin db db where
  files := rfl
  objects := rfl
  inactiveUsers := rfl
  rows _ u h := ⟨u, h, .refl db u⟩
  active u hu hpurpose h := .inl ⟨u, hu, rfl, hpurpose, h⟩
  keys := id
  kept _ := id
  added _ := .inl

theorem Quiet.trans (h : Quiet origin db db') (h' : Quiet origin db' db'') :
    Quiet origin db db'' := by
  have husers := FileDb.isActiveUser_congr h.inactiveUsers
  refine ⟨h'.files.trans h.files, h'.objects.trans h.objects,
    h'.inactiveUsers.trans h.inactiveUsers, fun i u hu => ?_,
    fun u hu hpurpose hactive => ?_, fun hkeys => h'.keys (h.keys hkeys), fun k hk =>
      h'.kept k (h.kept k hk), fun k hk => ?_⟩
  · obtain ⟨u₁, hu₁, hfirst⟩ := h.rows i u hu
    obtain ⟨u₂, hu₂, hsecond⟩ := h'.rows i u₁ hu₁
    refine ⟨u₂, hu₂, hsecond.userId.trans hfirst.userId, hsecond.purpose.trans hfirst.purpose,
      fun hover => ?_, fun hsucc huser => ?_⟩
    · obtain ⟨hover₁, hback₁⟩ := hfirst.ended hover
      obtain ⟨hover₂, hback₂⟩ := hsecond.ended hover₁
      exact ⟨hover₂, fun hsucc => hback₁ (hback₂ hsucc)⟩
    · have hsucc₁ := hfirst.succeeded hsucc huser
      refine hsecond.succeeded hsucc₁ ?_
      rw [husers, hfirst.userId]
      exact huser
  · rcases h'.active u hu hpurpose hactive with ⟨u₁, hu₁, huser, hpurpose₁, hactive₁⟩ | huser
    · rw [← huser]
      exact h.active u₁ hu₁ hpurpose₁ hactive₁
    · rw [husers] at huser
      exact .inr huser
  · rcases h'.added k hk with hk | ⟨i, u, horigin, hu, hover, hgone⟩
    · rcases h.added k hk with hk | ⟨i, u, horigin, hu, hover, hgone⟩
      · exact .inl hk
      · obtain ⟨u', hu', hfollows⟩ := h'.rows i u hu
        obtain ⟨hover', hback⟩ := hfollows.ended hover
        refine .inr ⟨i, u', horigin, hu', hover', fun hsucc => ?_⟩
        rw [hfollows.userId]
        exact hgone (hback hsucc)
    · refine .inr ⟨i, u, horigin, hu, hover, fun hsucc => ?_⟩
      rw [← husers]
      exact hgone hsucc

/-- A loop of quiet transactions is quiet. -/
theorem Quiet.foldlM {α : Type} {f : FileDb → α → Except FileError FileDb} {as : List α}
    (hstep : ∀ db a db', db.KeysOf origin → f db a = .ok db' → Quiet origin db db')
    (hkeys : db.KeysOf origin) (h : as.foldlM f db = .ok db') : Quiet origin db db' := by
  let P (m : FileDb) : Prop := Quiet origin db m ∧ m.KeysOf origin
  have hP : ∀ a ∈ as, ∀ m m', P m → f m a = .ok m' → P m' := by
    intro a _ m m' ⟨hquiet, hm⟩ hf
    have hnext := hstep m a m' hm hf
    exact ⟨hquiet.trans hnext, hnext.keys hm⟩
  have hend : P db' := Except.foldlM_invariant hP ⟨.refl db, hkeys⟩ h
  exact hend.1

/-! ### Facts -/

/-- The facts after some have been enqueued. -/
theorem FileDb.hasFact_enqueueDeletions (k : ℕ) :
    (db.enqueueDeletions targets now).HasFact k ↔
      db.HasFact k ∨ ∃ t ∈ targets, t.storageLocation = .avatarPublic ∧ t.objectKey = k := by
  have hadded : FactsAdded db (db.enqueueDeletions targets now) targets :=
    FileDb.enqueueDeletions_factsAdded
  constructor
  · rintro ⟨d, hd, hnames⟩
    rcases hadded.added d hd with hold | ⟨-, -, ⟨t, ht, hlocation, hkey⟩, -⟩
    · exact .inl ⟨d, hold, hnames⟩
    · exact .inr ⟨t, ht, hlocation.symm.trans hnames.1, hkey.symm.trans hnames.2⟩
  · rintro (⟨d, hd, hnames⟩ | ⟨t, ht, hlocation, hkey⟩)
    · exact ⟨d, hadded.kept d hd, hnames⟩
    · have hfact : ∃ d ∈ (db.enqueueDeletions targets now).deletions,
          d.Names t.storageLocation t.objectKey := FileDb.exists_enqueueDeletions ht
      rw [hlocation, hkey] at hfact
      exact hfact

/-- Facts may be written about the keys of uploads that are over. -/
theorem Quiet.facts (h : ∀ t ∈ targets, ∃ i u, origin t.objectKey = some i ∧
    db.uploads.get? i = some u ∧ db.Gone u) :
    Quiet origin db (db.enqueueDeletions targets now) := by
  have hother : FileDb.OnlyFacts db (db.enqueueDeletions targets now) :=
    FileDb.enqueueDeletions_onlyFacts
  refine ⟨hother.files, hother.objects, hother.inactiveUsers, fun i u hu => ?_,
    fun u hu hpurpose hactive => ?_, fun hkeys u hu => ?_,
    fun k hk => (FileDb.hasFact_enqueueDeletions k).mpr (.inl hk), fun k hk => ?_⟩
  · rw [hother.uploads]
    exact ⟨u, hu, .refl db u⟩
  · rw [hother.uploads] at hu
    exact .inl ⟨u, hu, rfl, hpurpose, hactive⟩
  · rw [hother.uploads] at hu
    exact hkeys u hu
  · rcases (FileDb.hasFact_enqueueDeletions k).mp hk with hk | ⟨t, ht, -, rfl⟩
    · exact .inl hk
    · rw [hother.uploads]
      exact .inr (h t ht)

/-- The manifest of an upload that is over may be cleaned up. -/
theorem Quiet.manifestFacts (hrow : db.uploads.get? u.id = some row) (hgone : db.Gone row)
    (hkeys : ∀ e ∈ u.entries, origin e.objectKey = some u.id) :
    Quiet origin db (db.enqueueAvatarManifestDeletions u now) := by
  refine Quiet.facts fun t ht => ?_
  obtain ⟨e, he, rfl⟩ := List.mem_map.mp ht
  exact ⟨u.id, row, hkeys e (List.mem_filter.mp he).1, hrow, hgone⟩

/-! ### Rows -/

/-- A row is written. -/
theorem Quiet.write (hu : db.uploads.get? u'.id = some u) (hfollows : db.Follows u u')
    (hactive : u'.status.isActive = true → u.status.isActive = true)
    (hkeys : ∀ e ∈ u'.entries, e ∈ u.entries ∨ origin e.objectKey = some u'.id) :
    Quiet origin db (db.setUpload u') := by
  obtain ⟨hmem, hid⟩ := Table.get?_eq_some_iff.mp hu
  have hget : ∀ i, (db.setUpload u').uploads.get? i =
      if i = u'.id then some u' else db.uploads.get? i := fun i => Table.get?_set ⟨u, hmem, hid⟩
  have hrows : ∀ v ∈ (db.setUpload u').uploads, v = u' ∨ v ∈ db.uploads := fun v hv =>
    (Table.of_mem_set hv).imp_right And.left
  refine ⟨rfl, rfl, rfl, fun i v hv => ?_, fun v hv hpurpose hactive' => ?_,
    fun hold v hv e he => ?_, fun _ => id, fun _ => .inl⟩
  · rw [hget]
    by_cases hi : i = u'.id
    · rw [hi, hu] at hv
      cases hv
      exact ⟨u', if_pos hi, hfollows⟩
    · exact ⟨v, (if_neg hi).trans hv, .refl db v⟩
  · rcases hrows v hv with rfl | hv
    · exact .inl ⟨u, hmem, hfollows.userId.symm, hfollows.purpose ▸ hpurpose, hactive hactive'⟩
    · exact .inl ⟨v, hv, rfl, hpurpose, hactive'⟩
  · rcases hrows v hv with rfl | hv
    · rcases hkeys e he with he | horigin
      · rw [← hid]
        exact hold u hmem e he
      · exact horigin
    · exact hold v hv e he

/-- An upload that is not over moves on. -/
theorem Quiet.move (hu : db.uploads.get? u'.id = some u) (hactive : u.status.isActive = true)
    (huser : u'.userId = u.userId) (hpurpose : u'.purpose = u.purpose)
    (hentries : u'.outputManifest = u.outputManifest) : Quiet origin db (db.setUpload u') := by
  refine Quiet.write hu ⟨huser, hpurpose, fun hover => ?_, fun hsucc => ?_⟩ (fun _ =>
    hactive) fun e he => ?_
  · rw [hactive] at hover
    cases hover
  · rw [hsucc] at hactive
    cases hactive
  · left
    rwa [FileUpload.entries, hentries] at he

/-- The status of an upload stays, and its manifest is cleared or stays. -/
theorem Quiet.keep (hu : db.uploads.get? u'.id = some u) (hstatus : u'.status = u.status)
    (huser : u'.userId = u.userId) (hpurpose : u'.purpose = u.purpose)
    (hkeys : ∀ e ∈ u'.entries, e ∈ u.entries ∨ origin e.objectKey = some u'.id) :
    Quiet origin db (db.setUpload u') := by
  refine Quiet.write hu ⟨huser, hpurpose, fun hover => ?_, fun hsucc _ => ?_⟩ (fun h => ?_) hkeys
  · rw [hstatus]
    exact ⟨hover, id⟩
  · rw [hstatus]
    exact hsucc
  · rwa [hstatus] at h

/-- An upload ends, and its manifest is cleaned up. -/
theorem Quiet.moveFacts (hu : db.uploads.get? u'.id = some u) (hactive : u.status.isActive = true)
    (huser : u'.userId = u.userId) (hpurpose : u'.purpose = u.purpose)
    (hentries : u'.outputManifest = u.outputManifest)
    (hover : u'.status.isActive = false) (hsucc : u'.status ≠ .succeeded)
    (hold : db.KeysOf origin) :
    Quiet origin db ((db.setUpload u').enqueueAvatarManifestDeletions u' now) := by
  have hmove : Quiet origin db (db.setUpload u') := Quiet.move hu hactive huser hpurpose hentries
  have hmem : u' ∈ (db.setUpload u').uploads := by
    obtain ⟨hmem, hid⟩ := Table.get?_eq_some_iff.mp hu
    exact (Table.mem_set ⟨u, hmem, hid⟩).mpr (.inl rfl)
  have hrow : (db.setUpload u').uploads.get? u'.id = some u' := Table.get?_key hmem
  refine hmove.trans (Quiet.manifestFacts hrow ⟨hover, fun h => absurd h hsucc⟩ ?_)
  exact hmove.keys hold u' hmem

/-! ### The transactions -/

variable {uploadId owner userId attemptCount : ℕ} {s : AvatarSettings} {answer : AvatarResult}
  {upload : FileUpload}

/-- An upload makes a transition, and other columns are set. -/
theorem Quiet.transition {target : FileUploadStatus} {errorCode : Option String}
    (hu : db.uploads.get? uploadId = some u)
    (hmoved : transitionUpload row target now errorCode = .ok upload) (hid : row.id = u.id)
    (huser : row.userId = u.userId) (hpurpose : row.purpose = u.purpose)
    (hstatus : row.status = u.status) (hentries : row.outputManifest = u.outputManifest)
    (hid' : u'.id = upload.id) (huser' : u'.userId = upload.userId)
    (hpurpose' : u'.purpose = upload.purpose)
    (hentries' : u'.outputManifest = upload.outputManifest) :
    Quiet origin db (db.setUpload u') := by
  obtain ⟨hallowed, rfl⟩ := transitionUpload_eq_ok.mp hmoved
  rw [FileUpload.moved_id] at hid'
  rw [FileUpload.moved_userId] at huser'
  rw [FileUpload.moved_purpose] at hpurpose'
  rw [FileUpload.moved_outputManifest] at hentries'
  have hkey : u'.id = uploadId := (hid'.trans hid).trans (Table.key_of_get? hu)
  rw [← hkey] at hu
  refine Quiet.move hu ?_ (huser'.trans huser) (hpurpose'.trans hpurpose)
    (hentries'.trans hentries)
  rw [← hstatus]
  exact FileUploadStatus.isActive_of_mem_allowedTransitions hallowed

theorem quiet_confirmAvatarUpload {etag : List Char} {metadata : Option StorageObjectMetadata}
    (h : db.confirmAvatarUpload userId uploadId etag metadata now = .ok db') :
    Quiet origin db db' := by
  unfold FileDb.confirmAvatarUpload at h
  split at h
  · cases h
  · rename_i upload hupload
    obtain ⟨-, h⟩ := ite_error_eq_ok_iff.mp h
    split_ifs at h with hpending hanother hexpired
    · cases h
      exact .refl db
    · obtain ⟨moved, hmoved, hset⟩ := bind_eq_ok_iff.mp h
      cases hset
      exact Quiet.transition hupload hmoved rfl rfl rfl rfl rfl rfl rfl rfl rfl
    · split at h
      · cases h
      · obtain ⟨-, h⟩ := ite_error_eq_ok_iff.mp h
        obtain ⟨moved, hmoved, hset⟩ := bind_eq_ok_iff.mp h
        cases hset
        exact Quiet.transition hupload hmoved rfl rfl rfl rfl rfl rfl rfl rfl rfl

/-- A claim is quiet, and says what the attempt has read. -/
theorem quiet_claimAvatarUpload
    (h : db.claimAvatarUpload s owner uploadId now = .ok (db', upload)) :
    Quiet origin db db' ∧ ∃ u, db.uploads.get? uploadId = some u ∧ u.purpose = .avatar ∧
      upload.entries = u.entries := by
  unfold FileDb.claimAvatarUpload at h
  split at h
  · cases h
  · rename_i u hu
    obtain ⟨hpurpose, h⟩ := ite_error_eq_ok_iff.mp h
    obtain ⟨-, h⟩ := ite_error_eq_ok_iff.mp h
    obtain ⟨hclaimable, h⟩ := ite_error_eq_ok_iff.mp h
    cases h
    obtain ⟨-, rfl⟩ := Table.get?_eq_some_iff.mp hu
    rw [not_or, not_not] at hclaimable
    refine ⟨Quiet.move hu ?_ rfl rfl rfl, u, hu, not_not.mp hpurpose, rfl⟩
    rw [hclaimable.1]
    rfl

theorem quiet_persistAvatarManifest {manifest : List ManifestEntry}
    (hmanifest : ∀ e ∈ manifest, origin e.objectKey = some uploadId)
    (h : db.persistAvatarManifest uploadId owner manifest = .ok db') : Quiet origin db db' := by
  unfold FileDb.persistAvatarManifest at h
  split at h
  · cases h
  · rename_i u hu
    obtain ⟨-, h⟩ := ite_error_eq_ok_iff.mp h
    obtain ⟨-, h⟩ := ite_error_eq_ok_iff.mp h
    cases h
    obtain ⟨-, rfl⟩ := Table.get?_eq_some_iff.mp hu
    exact Quiet.keep hu rfl rfl rfl fun e he => .inr (hmanifest e he)

theorem quiet_finishAvatarError {code : String} {retryable : Bool} (hkeys : db.KeysOf origin)
    (h : db.finishAvatarError s uploadId owner code retryable attemptCount now =
      .ok (db', answer)) : Quiet origin db db' := by
  unfold FileDb.finishAvatarError at h
  split at h
  · cases h
    exact .refl db
  · rename_i u hu
    split at h
    · cases h
      exact .refl db
    split at h
    · obtain ⟨moved, hmoved, hset⟩ := bind_eq_ok_iff.mp h
      cases hset
      exact Quiet.transition hu hmoved rfl rfl rfl rfl rfl rfl rfl rfl rfl
    · obtain ⟨moved, hmoved, hset⟩ := bind_eq_ok_iff.mp h
      cases hset
      obtain ⟨hallowed, rfl⟩ := transitionUpload_eq_ok.mp hmoved
      obtain ⟨-, rfl⟩ := Table.get?_eq_some_iff.mp hu
      refine Quiet.moveFacts (by rwa [FileUpload.moved_id])
        (FileUploadStatus.isActive_of_mem_allowedTransitions hallowed) FileUpload.moved_userId
        FileUpload.moved_purpose FileUpload.moved_outputManifest ?_ ?_ hkeys
      · rw [FileUpload.moved_status]
        cases retryable <;> rfl
      · rw [FileUpload.moved_status]
        cases retryable <;> decide

theorem quiet_recordAvatarStagingDeleted :
    Quiet origin db (db.recordAvatarStagingDeleted uploadId now) := by
  unfold FileDb.recordAvatarStagingDeleted
  split
  · exact .refl db
  · rename_i u hu
    obtain ⟨-, rfl⟩ := Table.get?_eq_some_iff.mp hu
    exact Quiet.keep hu rfl rfl rfl fun e he => .inl he

theorem quiet_sweepAvatarProcessing (hkeys : db.KeysOf origin)
    (h : db.sweepAvatarProcessing s now uploadId = .ok db') : Quiet origin db db' := by
  unfold FileDb.sweepAvatarProcessing at h
  split at h
  · cases h
  · rename_i u hu
    obtain ⟨-, h⟩ := ite_error_eq_ok_iff.mp h
    split_ifs at h with hattempts
    · obtain ⟨moved, hmoved, hset⟩ := bind_eq_ok_iff.mp h
      cases hset
      obtain ⟨hallowed, rfl⟩ := transitionUpload_eq_ok.mp hmoved
      obtain ⟨-, rfl⟩ := Table.get?_eq_some_iff.mp hu
      exact Quiet.moveFacts hu (FileUploadStatus.isActive_of_mem_allowedTransitions hallowed) rfl
        rfl rfl rfl (by rw [FileUpload.moved_status]; decide) hkeys
    · obtain ⟨moved, hmoved, hset⟩ := bind_eq_ok_iff.mp h
      cases hset
      exact Quiet.transition hu hmoved rfl rfl rfl rfl rfl rfl rfl rfl rfl

theorem quiet_sweepAvatarPending (h : db.sweepAvatarPending now uploadId = .ok db') :
    Quiet origin db db' := by
  unfold FileDb.sweepAvatarPending at h
  split at h
  · cases h
  · rename_i u hu
    obtain ⟨-, h⟩ := ite_error_eq_ok_iff.mp h
    obtain ⟨moved, hmoved, hset⟩ := bind_eq_ok_iff.mp h
    cases hset
    exact Quiet.transition hu hmoved rfl rfl rfl rfl rfl rfl rfl rfl rfl

/-- The facts of a swept upload are written before its manifest is cleared. -/
theorem quiet_sweepAvatarDirty (hkeys : db.KeysOf origin)
    (h : db.sweepAvatarDirty now uploadId = .ok db') : Quiet origin db db' := by
  unfold FileDb.sweepAvatarDirty at h
  split at h
  · cases h
  · rename_i u hu
    obtain ⟨hswept, h⟩ := ite_error_eq_ok_iff.mp h
    cases h
    obtain ⟨hmem, rfl⟩ := Table.get?_eq_some_iff.mp hu
    have hstatus : u.status.isActive = false ∧ u.status ≠ .succeeded := by
      cases hs : u.status <;> simp_all [FileUploadStatus.isSwept, FileUploadStatus.isActive]
    have hfacts : Quiet origin db (db.enqueueAvatarManifestDeletions u now) :=
      Quiet.manifestFacts hu ⟨hstatus.1, fun hsucc => absurd hsucc hstatus.2⟩ (hkeys u hmem)
    have huploads : (db.enqueueAvatarManifestDeletions u now).uploads = db.uploads :=
      FileDb.enqueueDeletions_onlyFacts.uploads
    refine hfacts.trans (Quiet.keep (u := u) (by rw [huploads]; exact hu) rfl rfl rfl
      fun e he => ?_)
    cases he

theorem quiet_sweepAvatarUploads {selection : SweepSelection} (hkeys : db.KeysOf origin)
    (h : db.sweepAvatarUploads s selection now = .ok db') : Quiet origin db db' := by
  unfold FileDb.sweepAvatarUploads at h
  obtain ⟨db₁, hprocessing, h⟩ := bind_eq_ok_iff.mp h
  obtain ⟨db₂, hpending, hdirty⟩ := bind_eq_ok_iff.mp h
  have hfirst : Quiet origin db db₁ :=
    Quiet.foldlM (fun _ _ _ hk hf => quiet_sweepAvatarProcessing hk hf) hkeys hprocessing
  have hsecond : Quiet origin db₁ db₂ :=
    Quiet.foldlM (fun _ _ _ _ hf => quiet_sweepAvatarPending hf) (hfirst.keys hkeys) hpending
  have hthird : Quiet origin db₂ db' :=
    Quiet.foldlM (fun _ _ _ hk hf => quiet_sweepAvatarDirty hk hf)
      (hsecond.keys (hfirst.keys hkeys)) hdirty
  exact (hfirst.trans hsecond).trans hthird

/-- Several uploads that are not over move on. -/
theorem Quiet.moveAll {target : FileUploadStatus} {errorCode : Option String}
    {us : List FileUpload} (hrows : ∀ u ∈ us, db.uploads.get? u.id = some u)
    (hnodup : (us.map FileUpload.id).Nodup) (hactive : ∀ u ∈ us, u.status.isActive = true) :
    Quiet origin db { db with
      uploads := us.foldl (fun uploads u => uploads.set (u.moved target now errorCode))
        db.uploads } := by
  induction us generalizing db with
  | nil => exact .refl db
  | cons u us ih =>
    obtain ⟨hfresh, hnodup⟩ := List.nodup_cons.mp hnodup
    have hu := hrows u List.mem_cons_self
    have hfirst : Quiet origin db (db.setUpload (u.moved target now errorCode)) :=
      Quiet.move (by rwa [FileUpload.moved_id]) (hactive u List.mem_cons_self)
        FileUpload.moved_userId FileUpload.moved_purpose FileUpload.moved_outputManifest
    refine hfirst.trans (ih (fun v hv => ?_) hnodup fun v hv =>
      hactive v (List.mem_cons_of_mem _ hv))
    have hne : v.id ≠ (u.moved target now errorCode).id := by
      rw [FileUpload.moved_id]
      intro heq
      exact hfresh (heq ▸ List.mem_map_of_mem hv)
    refine (Table.get?_set ⟨u, Table.mem_of_get? hu, FileUpload.moved_id.symm⟩).trans ?_
    rw [if_neg hne]
    exact hrows v (List.mem_cons_of_mem _ hv)

/-- A new upload of an active user is there, without a manifest. -/
theorem Quiet.insert {mk : ℕ → FileUpload} {hmk : ∀ n, (mk n).id = n}
    (huser : ∀ n, db.isActiveUser (mk n).userId = true) (hentries : ∀ n, (mk n).entries = []) :
    Quiet origin db { db with uploads := db.uploads.insert mk hmk } := by
  have hrows : ∀ u ∈ db.uploads.insert mk hmk, u ∈ db.uploads ∨ u = mk db.uploads.next :=
    fun u hu => Table.mem_insert.mp hu
  refine ⟨rfl, rfl, rfl, fun i u hu => ⟨u, ?_, .refl db u⟩, fun u hu hpurpose hactive => ?_,
    fun hkeys u hu e he => ?_, fun _ => id, fun _ => .inl⟩
  · show (db.uploads.insert mk hmk).get? i = some u
    rw [Table.get?_insert, if_neg ?_]
    · exact hu
    · rintro rfl
      rw [Table.get?_of_next_le le_rfl] at hu
      cases hu
  · rcases hrows u hu with hu | rfl
    · exact .inl ⟨u, hu, rfl, hpurpose, hactive⟩
    · exact .inr (huser _)
  · rcases hrows u hu with hu | rfl
    · exact hkeys u hu e he
    · rw [hentries] at he
      cases he

theorem quiet_createAvatarUpload {originalFilename : String} {contentType : List Char}
    {sizeBytes : ℕ}
    (h : db.createAvatarUpload s.toSettings userId originalFilename contentType sizeBytes now =
      .ok db') : Quiet origin db db' := by
  unfold FileDb.createAvatarUpload at h
  obtain ⟨huser, h⟩ := ite_error_eq_ok_iff.mp h
  rw [Bool.not_eq_false] at huser
  cases h
  have hmoved : Quiet origin db { db with
      uploads := (db.uploads.rows.filter fun u =>
        u.userId = userId ∧ u.purpose = .avatar ∧ u.status.isActive = true).foldl
          (fun uploads u => uploads.set (u.moved .cancelled now (some "superseded")))
          db.uploads } := by
    refine Quiet.moveAll (fun u hu => Table.get?_key (List.mem_filter.mp hu).1)
      (db.uploads.nodup.sublist (List.filter_sublist.map _)) fun u hu => ?_
    have hcond := (List.mem_filter.mp hu).2
    simp only [decide_eq_true_eq] at hcond
    exact hcond.2.2
  exact hmoved.trans (Quiet.insert (fun _ => huser) fun _ => rfl)

/-- The uploads of a deactivated account end: the loop is quiet, and the rows it has not come to
are the only ones of the user that are not over. -/
theorem quiet_deactivateAvatarUploads (hkeys : db.KeysOf origin)
    (h : (db.uploads.rows.filter fun u => u.userId = userId ∧ u.purpose = .avatar ∧
      u.status.isActive = true).foldlM (FileDb.deactivateAvatarUpload now) db = .ok db') :
    Quiet origin db db' ∧
      ∀ u ∈ db'.uploads, u.userId = userId → u.purpose = .avatar → u.status.isActive = false := by
  let P (left : List FileUpload) (m : FileDb) : Prop := Quiet origin db m ∧
    (left.map FileUpload.id).Nodup ∧ (∀ u ∈ left, m.uploads.get? u.id = some u) ∧
    ∀ u ∈ m.uploads, u.userId = userId → u.purpose = .avatar → u.status.isActive = true → u ∈ left
  have hstep : ∀ u left m m', P (u :: left) m → FileDb.deactivateAvatarUpload now m u = .ok m' →
      P left m' := by
    intro u left m m' ⟨hquiet, hnodup, hrows, hrest⟩ hf
    obtain ⟨moved, hmoved, hset⟩ := bind_eq_ok_iff.mp hf
    cases hset
    obtain ⟨hallowed, rfl⟩ := transitionUpload_eq_ok.mp hmoved
    obtain ⟨hfresh, hnodup⟩ := List.nodup_cons.mp hnodup
    have hu := hrows u List.mem_cons_self
    have huploads : ((m.setUpload (u.moved .cancelled now (some "account_inactive")))
        |>.enqueueAvatarManifestDeletions (u.moved .cancelled now (some "account_inactive")) now
        ).uploads = m.uploads.set (u.moved .cancelled now (some "account_inactive")) :=
      FileDb.enqueueDeletions_onlyFacts.uploads
    refine ⟨hquiet.trans (Quiet.moveFacts hu
      (FileUploadStatus.isActive_of_mem_allowedTransitions hallowed) rfl rfl rfl rfl
      (by rw [FileUpload.moved_status]; decide) (hquiet.keys hkeys)), hnodup, fun v hv => ?_,
      fun v hv huser hpurpose hactive => ?_⟩
    · rw [huploads, Table.get?_set ⟨u, Table.mem_of_get? hu, FileUpload.moved_id.symm⟩, if_neg ?_]
      · exact hrows v (List.mem_cons_of_mem _ hv)
      · intro heq
        exact hfresh (heq ▸ List.mem_map_of_mem hv)
    · rw [huploads] at hv
      rcases Table.of_mem_set hv with rfl | ⟨hv, hne⟩
      · cases hactive
      · rcases List.mem_cons.mp (hrest v hv huser hpurpose hactive) with rfl | hleft
        · exact absurd rfl hne
        · exact hleft
  have hinit : P (db.uploads.rows.filter fun u => u.userId = userId ∧ u.purpose = .avatar ∧
      u.status.isActive = true) db := by
    refine ⟨.refl db, db.uploads.nodup.sublist (List.filter_sublist.map _),
      fun u hu => Table.get?_key (List.mem_filter.mp hu).1, fun u hu huser hpurpose hactive => ?_⟩
    exact List.mem_filter.mpr ⟨hu, by simp [huser, hpurpose, hactive]⟩
  obtain ⟨hquiet, -, -, hnone⟩ : P [] db' := Except.foldlM_induction hstep hinit h
  refine ⟨hquiet, fun u hu huser hpurpose => ?_⟩
  cases hactive : u.status.isActive with
  | false => rfl
  | true => cases hnone u hu huser hpurpose hactive

end Quiet

end IChat.Files
