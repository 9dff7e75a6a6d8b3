import IChat.Files.Maintenance
import IChat.General.Except

/-!
# What the transactions of the files domain leave alone

Messages, assets and attachments are the tables that the files domain shares with the
conversations. Most of its transactions touch none of them (`SameFiles`); some begin the deletion of
assets (`DeletionsStarted`), and then say which assets these are. A new asset comes from the commit
of an upload alone, and an asset goes only with the completion of its last deletion.
-/

namespace IChat.Files.FileDb

/-! ### The two relations -/

/-- The tables that are shared with the conversations are as they were. -/
structure SameFiles (db db' : FileDb) : Prop where
  tables : db'.toConversationTables = db.toConversationTables
  files : db'.files = db.files
  attachments : db'.attachments = db.attachments

/-- The deletion of some assets has begun, all of which are among the given ones. -/
structure DeletionsStarted (ids : ℕ → Prop) (db db' : FileDb) : Prop where
  tables : db'.toConversationTables = db.toConversationTables
  attachments : db'.attachments = db.attachments
  next : db'.files.next = db.files.next
  row : ∀ id, db'.files.get? id = db.files.get? id ∨
    ids id ∧ ∃ file now, db.files.get? id = some file ∧
      db'.files.get? id = some { file with deletionStartedAt := some now }

variable {db db' db₁ db₂ db₃ : FileDb} {ids ids' : ℕ → Prop} {upload : FileUpload}
  {file : FileAsset} {s : Settings} {now : ℕ}

theorem SameFiles.refl (db : FileDb) : SameFiles db db := ⟨rfl, rfl, rfl⟩

theorem SameFiles.trans (h₁ : SameFiles db₁ db₂) (h₂ : SameFiles db₂ db₃) : SameFiles db₁ db₃ :=
  ⟨h₂.tables.trans h₁.tables, h₂.files.trans h₁.files, h₂.attachments.trans h₁.attachments⟩

theorem OnlyFacts.sameFiles (h : OnlyFacts db db') : SameFiles db db' :=
  ⟨h.tables, h.files, h.attachments⟩

theorem SameFiles.deletionsStarted (h : SameFiles db db') : DeletionsStarted ids db db' :=
  ⟨h.tables, h.attachments, by rw [h.files], fun id => .inl (by rw [h.files])⟩

theorem DeletionsStarted.mono (h : DeletionsStarted ids db db') (hids : ∀ id, ids id → ids' id) :
    DeletionsStarted ids' db db' where
  tables := h.tables
  attachments := h.attachments
  next := h.next
  row id := (h.row id).imp_right fun ⟨hid, hrow⟩ => ⟨hids id hid, hrow⟩

theorem DeletionsStarted.trans (h₁ : DeletionsStarted ids db₁ db₂)
    (h₂ : DeletionsStarted ids db₂ db₃) : DeletionsStarted ids db₁ db₃ where
  tables := h₂.tables.trans h₁.tables
  attachments := h₂.attachments.trans h₁.attachments
  next := h₂.next.trans h₁.next
  row id := by
    rcases h₂.row id with hsame | ⟨hid, file, now, hfile, hstarted⟩
    · rw [hsame]
      exact h₁.row id
    · rcases h₁.row id with hsame | ⟨-, file', now', hfile', hstarted'⟩
      · exact .inr ⟨hid, file, now, hsame ▸ hfile, hstarted⟩
      · -- the second deletion overwrites the moment of the first
        rw [hstarted'] at hfile
        cases hfile
        exact .inr ⟨hid, file', now, hfile', hstarted⟩

/-- Only the columns of a deletion tell the rows apart. -/
theorem DeletionsStarted.get?_eq (h : DeletionsStarted ids db db') {id : ℕ}
    (hfile : db'.files.get? id = some file) :
    ∃ file₀, db.files.get? id = some file₀ ∧
      file = { file₀ with deletionStartedAt := file.deletionStartedAt } ∧
      (file.deletionStartedAt = file₀.deletionStartedAt ∨ ids id) := by
  rcases h.row id with hsame | ⟨hid, file₀, moment, hfile₀, hstarted⟩
  · exact ⟨file, hsame ▸ hfile, rfl, .inl rfl⟩
  · rw [hstarted] at hfile
    cases hfile
    exact ⟨file₀, hfile₀, rfl, .inr hid⟩

/-! ### Steps that leave the shared tables alone -/

theorem setUpload_sameFiles : SameFiles db (db.setUpload upload) := ⟨rfl, rfl, rfl⟩

theorem releaseReservation_sameFiles : SameFiles db (db.releaseReservation upload) := by
  unfold releaseReservation
  split
  · exact .refl db
  · exact ⟨rfl, rfl, rfl⟩

theorem releaseReservedBytes_sameFiles {userId : ℕ} {bytes : ℤ} :
    SameFiles db (db.releaseReservedBytes userId bytes) := ⟨rfl, rfl, rfl⟩

theorem enqueueManifestDeletions_sameFiles :
    SameFiles db (db.enqueueManifestDeletions upload now) :=
  enqueueDeletions_onlyFacts.sameFiles

/-- An upload ends: it is written, its bytes are given back, and its manifest is deleted. -/
theorem ended_sameFiles :
    SameFiles db (((db.setUpload upload).releaseReservation upload).enqueueManifestDeletions
      upload now) :=
  (setUpload_sameFiles.trans releaseReservation_sameFiles).trans enqueueManifestDeletions_sameFiles

/-- A loop of steps that leave the shared tables alone does so too. -/
theorem foldlM_sameFiles {α : Type} {f : FileDb → α → Except FileError FileDb}
    (hf : ∀ db a db', f db a = .ok db' → SameFiles db db') {as : List α}
    (h : as.foldlM f db = .ok db') : SameFiles db db' := by
  exact Except.foldlM_invariant (fun a _ m m' hm hstep => hm.trans (hf m a m' hstep))
    (SameFiles.refl db) h

/-! ### Uploads -/

theorem createUpload_sameFiles {userId sizeBytes : ℕ} {originalFilename : String}
    {origin : FileOrigin} {contentType : List Char} {multipartSupported : Bool}
    (h : db.createUpload s userId originalFilename origin contentType sizeBytes multipartSupported
      now = .ok db') : SameFiles db db' := by
  unfold createUpload at h
  obtain ⟨-, h⟩ := ite_error_eq_ok_iff.mp h
  obtain ⟨-, h⟩ := ite_error_eq_ok_iff.mp h
  obtain ⟨-, h⟩ := ite_error_eq_ok_iff.mp h
  cases h
  exact ⟨rfl, rfl, rfl⟩

theorem createAvatarUpload_sameFiles {userId sizeBytes : ℕ} {originalFilename : String}
    {contentType : List Char}
    (h : db.createAvatarUpload s userId originalFilename contentType sizeBytes now = .ok db') :
    SameFiles db db' := by
  unfold createAvatarUpload at h
  obtain ⟨-, h⟩ := ite_error_eq_ok_iff.mp h
  cases h
  exact ⟨rfl, rfl, rfl⟩

theorem moveAvatarUpload_sameFiles {uploadId : ℕ} {target : FileUploadStatus}
    {errorCode : Option String} (h : db.moveAvatarUpload uploadId target now errorCode = .ok db') :
    SameFiles db db' := by
  unfold moveAvatarUpload at h
  split at h
  · cases h
  · obtain ⟨-, h⟩ := ite_error_eq_ok_iff.mp h
    obtain ⟨moved, -, h⟩ := bind_eq_ok_iff.mp h
    cases h
    exact setUpload_sameFiles

theorem confirmUpload_sameFiles {userId uploadId : ℕ} {etag : Option (List Char)}
    {parts : Option (List ℕ)} {metadata : Option StorageObjectMetadata}
    (h : db.confirmUpload userId uploadId etag parts metadata now = .ok db') :
    SameFiles db db' := by
  unfold confirmUpload at h
  split at h
  · cases h
  · obtain ⟨-, h⟩ := ite_error_eq_ok_iff.mp h
    obtain ⟨normalizedEtag, -, h⟩ := bind_eq_ok_iff.mp h
    split at h
    · obtain ⟨-, h⟩ := ite_error_eq_ok_iff.mp h
      cases h
      exact .refl db
    · split at h
      · obtain ⟨moved, -, h⟩ := bind_eq_ok_iff.mp h
        cases h
        exact ⟨rfl, rfl, rfl⟩
      · split at h
        · cases h
        · obtain ⟨-, h⟩ := ite_error_eq_ok_iff.mp h
          obtain ⟨moved, -, h⟩ := bind_eq_ok_iff.mp h
          cases h
          exact setUpload_sameFiles

theorem claimUpload_sameFiles {owner uploadId : ℕ} {claimed : FileUpload}
    (h : db.claimUpload s owner uploadId now = .ok (db', claimed)) : SameFiles db db' := by
  unfold claimUpload at h
  split at h
  · cases h
  · obtain ⟨-, h⟩ := ite_error_eq_ok_iff.mp h
    obtain ⟨moved, -, h⟩ := bind_eq_ok_iff.mp h
    cases h
    exact setUpload_sameFiles

theorem persistManifest_sameFiles {uploadId owner : ℕ} {manifest : List ManifestEntry}
    (h : db.persistManifest uploadId owner manifest = .ok db') : SameFiles db db' := by
  unfold persistManifest at h
  split at h
  · cases h
  · obtain ⟨-, h⟩ := ite_error_eq_ok_iff.mp h
    obtain ⟨-, h⟩ := ite_error_eq_ok_iff.mp h
    cases h
    exact setUpload_sameFiles

theorem finishError_sameFiles {uploadId owner attemptCount : ℕ} {code : String} {retryable : Bool}
    (h : db.finishError s uploadId owner code retryable attemptCount now = .ok db') :
    SameFiles db db' := by
  unfold finishError at h
  split at h
  · cases h
    exact .refl db
  · split at h
    · cases h
      exact .refl db
    · split at h
      · obtain ⟨moved, -, h⟩ := bind_eq_ok_iff.mp h
        cases h
        exact setUpload_sameFiles
      · obtain ⟨moved, -, h⟩ := bind_eq_ok_iff.mp h
        cases h
        exact ended_sameFiles

theorem recordStagingDeleted_sameFiles {uploadId : ℕ}
    (h : db.recordStagingDeleted uploadId now = .ok db') : SameFiles db db' := by
  unfold recordStagingDeleted at h
  split at h
  · cases h
    exact .refl db
  · cases h
    exact setUpload_sameFiles

theorem sweepProcessing_sameFiles {uploadId : ℕ}
    (h : db.sweepProcessing s now uploadId = .ok db') : SameFiles db db' := by
  unfold sweepProcessing at h
  split at h
  · cases h
  · obtain ⟨-, h⟩ := ite_error_eq_ok_iff.mp h
    split at h
    · obtain ⟨moved, -, h⟩ := bind_eq_ok_iff.mp h
      cases h
      exact ended_sameFiles
    · obtain ⟨moved, -, h⟩ := bind_eq_ok_iff.mp h
      cases h
      exact setUpload_sameFiles

theorem sweepPending_sameFiles {uploadId : ℕ} (h : db.sweepPending now uploadId = .ok db') :
    SameFiles db db' := by
  unfold sweepPending at h
  split at h
  · cases h
  · obtain ⟨-, h⟩ := ite_error_eq_ok_iff.mp h
    obtain ⟨moved, -, h⟩ := bind_eq_ok_iff.mp h
    cases h
    exact setUpload_sameFiles.trans releaseReservation_sameFiles

theorem sweepDirty_sameFiles {uploadId : ℕ} (h : db.sweepDirty now uploadId = .ok db') :
    SameFiles db db' := by
  unfold sweepDirty at h
  split at h
  · cases h
  · obtain ⟨-, h⟩ := ite_error_eq_ok_iff.mp h
    cases h
    exact enqueueManifestDeletions_sameFiles.trans setUpload_sameFiles

theorem sweepUploads_sameFiles {selection : SweepSelection}
    (h : db.sweepUploads s selection now = .ok db') : SameFiles db db' := by
  unfold sweepUploads at h
  obtain ⟨db₁, hprocessing, h⟩ := bind_eq_ok_iff.mp h
  obtain ⟨db₂, hpending, hdirty⟩ := bind_eq_ok_iff.mp h
  have h₁ : SameFiles db db₁ := foldlM_sameFiles (fun _ _ _ =>
    sweepProcessing_sameFiles) hprocessing
  have h₂ : SameFiles db₁ db₂ := foldlM_sameFiles (fun _ _ _ => sweepPending_sameFiles) hpending
  have h₃ : SameFiles db₂ db' := foldlM_sameFiles (fun _ _ _ => sweepDirty_sameFiles) hdirty
  exact (h₁.trans h₂).trans h₃

theorem cleanupStaging_sameFiles {uploadId : ℕ} (h : db.cleanupStaging s uploadId now = .ok db') :
    SameFiles db db' := by
  unfold cleanupStaging at h
  split at h
  · cases h
  · obtain ⟨-, h⟩ := ite_error_eq_ok_iff.mp h
    cases h
    exact setUpload_sameFiles

theorem retryDeletion_sameFiles {deletionId : ℕ} (h : db.retryDeletion deletionId now = .ok db') :
    SameFiles db db' := by
  unfold retryDeletion at h
  split at h
  · cases h
  · obtain ⟨-, h⟩ := ite_error_eq_ok_iff.mp h
    cases h
    exact ⟨rfl, rfl, rfl⟩

theorem deactivateUpload_sameFiles (h : db.deactivateUpload now upload = .ok db') :
    SameFiles db db' := by
  unfold deactivateUpload at h
  obtain ⟨moved, -, h⟩ := bind_eq_ok_iff.mp h
  cases h
  split
  · exact setUpload_sameFiles.trans enqueueManifestDeletions_sameFiles
  · exact setUpload_sameFiles

theorem deactivateUser_sameFiles {userId : ℕ} (h : db.deactivateUser userId now = .ok db') :
    SameFiles db db' := by
  unfold deactivateUser at h
  obtain ⟨m, hloop, h⟩ := bind_eq_ok_iff.mp h
  have hm : SameFiles db m := foldlM_sameFiles (fun _ _ _ => deactivateUpload_sameFiles) hloop
  cases h
  split
  · exact hm.trans ⟨rfl, rfl, rfl⟩
  · exact hm.trans ⟨rfl, rfl, rfl⟩

/-! ### Assets -/

/-- Beginning the deletion of an asset whose row a session has read as undeleted: the row that is
there now is marked. -/
private theorem beginAssetDeletion_marked {row : FileAsset} (hrow : row ∈ db.files)
    (heq :
      let marked :=
        { db with files := db.files.set { row with deletionStartedAt := some now } }
      let facts := marked.enqueueDeletions
        ((marked.objectsOf file.id).flatMap (FileObject.targets file.purpose)) now
      db' = if file.purpose = .messageAttachment
        then facts.releaseUsedBytes file.userId file.sizeBytes else facts) :
    SameFiles { db with files := db.files.set { row with deletionStartedAt := some now } } db' ∧
      ∀ id, db'.files.get? id =
        if id = row.id then some { row with deletionStartedAt := some now }
        else db.files.get? id := by
  have hsame : SameFiles
      { db with files := db.files.set { row with deletionStartedAt := some now } } db' := by
    rw [heq]
    split
    · exact enqueueDeletions_onlyFacts.sameFiles.trans ⟨rfl, rfl, rfl⟩
    · exact enqueueDeletions_onlyFacts.sameFiles
  refine ⟨hsame, fun id => ?_⟩
  rw [hsame.files]
  have hmem : ∃ r ∈ db.files, r.id = FileAsset.id { row with deletionStartedAt := some now } :=
    ⟨row, hrow, rfl⟩
  exact Table.get?_set hmem

/-- Beginning the deletion of an asset marks its row, whatever the session had read. -/
theorem beginAssetDeletion_deletionsStarted (h : db.beginAssetDeletion file now = .ok db') :
    DeletionsStarted (· = file.id) db db' := by
  rcases beginAssetDeletion_eq_ok.mp h with ⟨-, rfl⟩ | ⟨-, row, hrow, hid, heq⟩
  · exact (SameFiles.refl _).deletionsStarted
  · obtain ⟨hsame, hget⟩ := beginAssetDeletion_marked hrow heq
    refine ⟨hsame.tables, hsame.attachments, by rw [hsame.files]; rfl, fun id => ?_⟩
    by_cases hrowId : id = row.id
    · refine .inr ⟨hrowId.trans hid, row, now, ?_, (hget id).trans (if_pos hrowId)⟩
      rw [hrowId]
      exact Table.get?_key hrow
    · exact .inl ((hget id).trans (if_neg hrowId))

/-- The deletion of the asset has begun, if it is still there. -/
def Started (db : FileDb) (id : ℕ) : Prop :=
  ∀ row, db.files.get? id = some row → row.deletionStartedAt ≠ none

/-- A deletion that has begun is not taken back. -/
theorem DeletionsStarted.started (h : DeletionsStarted ids db db') {id : ℕ}
    (hstarted : db.Started id) : db'.Started id := by
  intro row hrow
  rcases h.row id with hsame | ⟨-, file, now, -, hmarked⟩
  · exact hstarted row (hsame ▸ hrow)
  · rw [hmarked] at hrow
    cases hrow
    nofun

theorem beginAssetDeletion_started (h : db.beginAssetDeletion file now = .ok db')
    (hfile : file.deletionStartedAt ≠ none → db.Started file.id) : db'.Started file.id := by
  rcases beginAssetDeletion_eq_ok.mp h with ⟨hstarted, rfl⟩ | ⟨-, row, hrow, hid, heq⟩
  · exact hfile hstarted
  · intro row' hrow'
    obtain ⟨-, hget⟩ := beginAssetDeletion_marked hrow heq
    rw [hget, if_pos hid.symm] at hrow'
    cases hrow'
    nofun

/-- The asset is not bound. -/
def Unbound (db : FileDb) (id : ℕ) : Prop := ∃ file ∈ db.files.get? id, file.boundAt = none

/-- The asset is not bound, or no message has shown it for some time. -/
def UnboundOrDetached (db : FileDb) (id : ℕ) : Prop :=
  ∃ file ∈ db.files.get? id, file.boundAt = none ∨ file.detachedAt ≠ none

/-- A row that a deletion has marked is the row it was in every other column. -/
private theorem DeletionsStarted.exists_get? (h : DeletionsStarted ids db db') {id : ℕ}
    {p : FileAsset → Prop} (hp : ∀ file t, p { file with deletionStartedAt := t } → p file)
    (hex : ∃ file ∈ db'.files.get? id, p file) : ∃ file ∈ db.files.get? id, p file := by
  obtain ⟨file, hfile, hpfile⟩ := hex
  obtain ⟨file₀, hfile₀, heq, -⟩ := h.get?_eq hfile
  rw [heq] at hpfile
  exact ⟨file₀, hfile₀, hp _ _ hpfile⟩

theorem reclaimAssets_deletionsStarted {fileIds : List ℕ}
    (h : db.reclaimAssets s fileIds now = .ok db') :
    DeletionsStarted db.UnboundOrDetached db db' := by
  refine Except.foldlM_invariant (fun fileId _ m m' hm hstep => ?_)
    (SameFiles.refl db).deletionsStarted h
  unfold reclaimAsset at hstep
  split at hstep
  · cases hstep
  · next file hfile =>
    split_ifs at hstep with hreclaimable
    have hid : file.id = fileId := Table.key_of_get? hfile
    refine hm.trans ((beginAssetDeletion_deletionsStarted hstep).mono fun id heq => ?_)
    subst heq
    refine hm.exists_get? (fun _ _ => id) ⟨file, hid ▸ hfile, ?_⟩
    rcases hreclaimable.2.2 with ⟨hunbound, -⟩ | ⟨t, ht, -⟩
    · exact .inl hunbound
    · exact .inr fun hnone => by simp [hnone] at ht

/-- **Cancelling.** No asset that is bound is touched. -/
theorem cancelUploads_deletionsStarted {userId : ℕ} {uploadIds : List ℕ}
    (h : db.cancelUploads userId uploadIds now = .ok db') :
    DeletionsStarted db.Unbound db db' := by
  unfold cancelUploads at h
  obtain ⟨-, h⟩ := ite_error_eq_ok_iff.mp h
  obtain ⟨hbound, h⟩ := ite_error_eq_ok_iff.mp h
  push Not at hbound
  refine Except.foldlM_invariant (fun upload hupload m m' hm hstep => ?_) ?_ h
  · unfold cancelUpload at hstep
    split_ifs at hstep with hsucceeded hactive
    · split at hstep
      · next file hfile =>
        split_ifs at hstep with hnot
        · refine hm.trans ((beginAssetDeletion_deletionsStarted hstep).mono fun id heq => ?_)
          subst heq
          -- the asset was checked before the first change was made
          rw [succeededAsset, if_pos hsucceeded, Option.bind_eq_some_iff] at hfile
          obtain ⟨fileId, hfileId, hget⟩ := hfile
          have hid : file.id = fileId := Table.key_of_get? hget
          obtain ⟨file₀, hget₀, heq, -⟩ := hm.get?_eq hget
          have hsame : file₀.boundAt = none :=
            hbound upload hupload file₀ (by
              rw [succeededAsset, if_pos hsucceeded, hfileId]
              exact hget₀)
          exact ⟨file₀, hid ▸ hget₀, hsame⟩
        · cases hstep
          exact hm
      · cases hstep
        exact hm
    · obtain ⟨moved, -, hmoved⟩ := bind_eq_ok_iff.mp hstep
      cases hmoved
      exact hm.trans setUpload_sameFiles.deletionsStarted
    · cases hstep
      exact hm
  · split
    · exact (SameFiles.refl db).deletionsStarted
    · exact releaseReservedBytes_sameFiles.deletionsStarted

/-! ### Assets that come and go -/

/-- A row that no message refers to yet. -/
structure IsFresh (file : FileAsset) : Prop where
  boundAt : file.boundAt = none
  sourceMessageId : file.sourceMessageId = none
  detachedAt : file.detachedAt = none
  deletionStartedAt : file.deletionStartedAt = none

/-- One asset is new. -/
structure AssetInserted (db db' : FileDb) : Prop where
  tables : db'.toConversationTables = db.toConversationTables
  attachments : db'.attachments = db.attachments
  next : db'.files.next = db.files.next + 1
  row : ∃ file, IsFresh file ∧
    ∀ id, db'.files.get? id = if id = db.files.next then some file else db.files.get? id

/-- One asset whose deletion had begun is gone, and no attachment refers to it. -/
structure AssetErased (fileId : ℕ) (db db' : FileDb) : Prop where
  tables : db'.toConversationTables = db.toConversationTables
  next : db'.files.next = db.files.next
  started : ∃ file ∈ db.files.get? fileId, file.deletionStartedAt ≠ none
  row : ∀ id, db'.files.get? id = if id = fileId then none else db.files.get? id
  attachments : db'.attachments = db.attachments.map fun a =>
    { a with fileId := if a.fileId = some fileId then none else a.fileId }

theorem SameFiles.assetErased {fileId : ℕ} (h : SameFiles db₁ db₂)
    (h' : AssetErased fileId db₂ db₃) :
    AssetErased fileId db₁ db₃ where
  tables := h'.tables.trans h.tables
  next := h'.next.trans (by rw [h.files])
  started := h.files ▸ h'.started
  row := h.files ▸ h'.row
  attachments := h.attachments ▸ h'.attachments

theorem deleteAsset_assetErased {fileId : ℕ} {file : FileAsset}
    (hfile : db.files.get? fileId = some file) (hstarted : file.deletionStartedAt ≠ none) :
    AssetErased fileId db (db.deleteAsset fileId) :=
  ⟨rfl, rfl, ⟨file, hfile, hstarted⟩, fun _ => Table.get?_erase, rfl⟩

/-- An asset is erased when its last object is gone, and otherwise stays as it is. -/
theorem deleteEmptyAsset_sameFiles_or (db : FileDb) (fileId : ℕ) :
    SameFiles db (db.deleteEmptyAsset fileId) ∨
      AssetErased fileId db (db.deleteEmptyAsset fileId) := by
  unfold deleteEmptyAsset
  split
  · exact .inl (.refl db)
  · next file hfile =>
    split_ifs with hempty
    · exact .inr (deleteAsset_assetErased hfile hempty.2)
    · exact .inl (.refl db)

theorem completeDeletion_eq_ok {deletionId : ℕ} (h : db.completeDeletion deletionId now = .ok db') :
    SameFiles db db' ∨ ∃ fileId, AssetErased fileId db db' := by
  unfold completeDeletion at h
  split at h
  · cases h
  · next row _ =>
    obtain ⟨-, h⟩ := ite_error_eq_ok_iff.mp h
    let completed := { db with
      deletions := db.deletions.set { row with
        attemptCount := row.attemptCount + 1
        objectDeletedAt := some now
        completedAt := some now } }
    have hcompleted : SameFiles db completed := ⟨rfl, rfl, rfl⟩
    dsimp only at h
    split at h
    · cases h
      exact .inl hcompleted
    · next object _ =>
      cases h
      have hdeleted : SameFiles db (completed.deleteObject object.id) := ⟨rfl, rfl, rfl⟩
      rcases deleteEmptyAsset_sameFiles_or (completed.deleteObject object.id) object.fileId with
        hsame | herased
      · exact .inl (hdeleted.trans hsame)
      · exact .inr ⟨object.fileId, hdeleted.assetErased herased⟩

theorem commitSuccess_eq_ok {uploadId owner : ℕ} {processed : ProcessedColumns}
    {manifest : List ManifestEntry}
    (h : db.commitSuccess s uploadId owner processed manifest now = .ok db') :
    SameFiles db db' ∨ AssetInserted db db' := by
  unfold commitSuccess at h
  split at h
  · cases h
    exact .inl (.refl db)
  · split at h
    · left
      split at h
      · obtain ⟨moved, -, h⟩ := bind_eq_ok_iff.mp h
        cases h
        exact (enqueueManifestDeletions_sameFiles.trans setUpload_sameFiles).trans
          releaseReservation_sameFiles
      · cases h
        exact enqueueManifestDeletions_sameFiles
    · obtain ⟨moved, -, h⟩ := bind_eq_ok_iff.mp h
      cases h
      exact .inr ⟨rfl, rfl, rfl, _, ⟨rfl, rfl, rfl, rfl⟩, fun id => Table.get?_insert⟩

/-! ### Purged conversations -/

/-- The assets that a purge has read are marked; nothing else changes after the messages went. -/
theorem beginAssetDeletions_deletionsStarted {files : List FileAsset}
    (h : files.foldlM (fun db file => db.beginAssetDeletion file now) db = .ok db') :
    DeletionsStarted (· ∈ files.map FileAsset.id) db db' := by
  refine Except.foldlM_invariant (fun file hfile m m' hm hstep => ?_)
    (SameFiles.refl db).deletionsStarted h
  refine hm.trans ((beginAssetDeletion_deletionsStarted hstep).mono fun id hid => ?_)
  rw [hid]
  exact List.mem_map_of_mem hfile

/-- Afterwards the deletion of each of them has begun, if it had where the session read so. -/
theorem beginAssetDeletions_started {files : List FileAsset}
    (h : files.foldlM (fun db file => db.beginAssetDeletion file now) db = .ok db')
    (hfiles : ∀ file ∈ files, file.deletionStartedAt ≠ none → db.Started file.id) :
    ∀ file ∈ files, db'.Started file.id := by
  induction files generalizing db with
  | nil => exact fun _ hnil => absurd hnil List.not_mem_nil
  | cons first files ih =>
    rw [List.foldlM_cons] at h
    obtain ⟨db₁, hfirst, hrest⟩ := bind_eq_ok_iff.mp h
    have hmarked := beginAssetDeletion_deletionsStarted hfirst
    intro file hfile
    rcases List.mem_cons.mp hfile with rfl | hfile
    · refine (beginAssetDeletions_deletionsStarted hrest).started ?_
      exact beginAssetDeletion_started hfirst (hfiles _ List.mem_cons_self)
    · refine ih hrest (fun later hlater hstarted => ?_) file hfile
      exact hmarked.started (hfiles later (List.mem_cons_of_mem _ hlater) hstarted)

end IChat.Files.FileDb
