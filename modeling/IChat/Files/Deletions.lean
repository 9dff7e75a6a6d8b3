import IChat.Files.Records

/-!
# Deletion facts

An object of the store goes in two phases: a transaction writes a row of `file_object_deletions`,
and the deletion processor later deletes the object and completes the row. A fact is written once
for each storage location and object key, whether the fact that is there is completed or not.

Six functions of the source write facts, four for a write manifest and two for the objects of an
asset; all of them look for an existing fact in the same way. They differ in their targets only,
which are `manifestTargets` and `objectTargets` here.
-/

namespace IChat.Files

/-- The row is about one object of the store. -/
def FileObjectDeletion.Names (d : FileObjectDeletion) (location : FileStorageLocation)
    (objectKey : ℕ) : Prop :=
  d.storageLocation = location ∧ d.objectKey = objectKey

instance (d : FileObjectDeletion) (location : FileStorageLocation) (objectKey : ℕ) :
    Decidable (d.Names location objectKey) :=
  inferInstanceAs (Decidable (_ ∧ _))

/-- The other location in which a preview may be. -/
def FileStorageLocation.counterpart : FileStorageLocation → FileStorageLocation
  | .canonicalPrivate => .modelPreviewPrivate
  | _ => .canonicalPrivate

/-- The locations at which an object has to be deleted: a preview may be at either private one. -/
def deletedLocations (role : FileObjectRole) (location : FileStorageLocation) :
    List FileStorageLocation :=
  if role = .preview ∧ location ∈ [.canonicalPrivate, .modelPreviewPrivate] then
    [location, location.counterpart]
  else [location]

/-- An object for which a fact is wanted. -/
structure DeletionTarget where
  fileObjectId : Option ℕ
  storageLocation : FileStorageLocation
  objectKey : ℕ

/-- The targets of one manifest entry. -/
def ManifestEntry.targets (entry : ManifestEntry) : List DeletionTarget :=
  (deletedLocations entry.role entry.storageLocation).map fun location =>
    ⟨none, location, entry.objectKey⟩

/-- The targets of the write manifest of an upload. -/
def FileUpload.manifestTargets (upload : FileUpload) : List DeletionTarget :=
  upload.entries.flatMap ManifestEntry.targets

/-- The targets of an object of an asset. -/
def FileObject.targets (purpose : FilePurpose) (object : FileObject) : List DeletionTarget :=
  let locations :=
    if purpose = .messageAttachment then deletedLocations object.role object.storageLocation
    else [object.storageLocation]
  locations.map fun location =>
    ⟨if location = object.storageLocation then some object.id else none, location,
      object.objectKey⟩

namespace FileDb

/-- Write a fact, unless there is one for the object. -/
def enqueueDeletion (now : ℕ) (db : FileDb) (target : DeletionTarget) : FileDb :=
  if ∃ d ∈ db.deletions, d.Names target.storageLocation target.objectKey then db
  else { db with
    deletions := db.deletions.insert
      (fun id =>
        { id
          fileObjectId := target.fileObjectId
          storageLocation := target.storageLocation
          objectKey := target.objectKey
          attemptCount := 0
          availableAt := now
          objectDeletedAt := none
          completedAt := none })
      fun _ => rfl }

/-- Write the facts for a list of objects. -/
def enqueueDeletions (db : FileDb) (targets : List DeletionTarget) (now : ℕ) : FileDb :=
  targets.foldl (enqueueDeletion now) db

/-- `_enqueue_manifest_deletions` and `_enqueue_private_manifest_deletions`. -/
def enqueueManifestDeletions (db : FileDb) (upload : FileUpload) (now : ℕ) : FileDb :=
  db.enqueueDeletions upload.manifestTargets now

/-- The rows of `file_objects` of an asset. -/
def objectsOf (db : FileDb) (fileId : ℕ) : List FileObject :=
  db.objects.rows.filter fun object => object.fileId = fileId

/-- `_begin_asset_deletion` and `begin_file_deletion`. The asset is the row as the session read
it, which need not be the row that is there now: a session writes the changed column only, under
the key of the row, and fails when no row has the key. -/
def beginAssetDeletion (db : FileDb) (file : FileAsset) (now : ℕ) : Except FileError FileDb :=
  if file.deletionStartedAt ≠ none then .ok db
  else
    match db.files.get? file.id with
    | none => .error .noRow
    | some row =>
      let db := { db with files := db.files.set { row with deletionStartedAt := some now } }
      let db := db.enqueueDeletions
        ((db.objectsOf file.id).flatMap (FileObject.targets file.purpose)) now
      .ok (if file.purpose = .messageAttachment then db.releaseUsedBytes file.userId file.sizeBytes
        else db)

/-! ### What facts there are -/

/-- There is at most one fact for each object, as the unique constraint of the table says. -/
def FactsUnique (db : FileDb) : Prop :=
  ∀ d ∈ db.deletions, ∀ d' ∈ db.deletions, d'.Names d.storageLocation d.objectKey → d' = d

/-- Facts are only added: `db'` has the facts of `db`, and every other one is new, not completed,
and about an object that `db` has no fact for. -/
structure FactsAdded (db db' : FileDb) (targets : List DeletionTarget) : Prop where
  kept : ∀ d ∈ db.deletions, d ∈ db'.deletions
  added : ∀ d ∈ db'.deletions, d ∈ db.deletions ∨
    db.deletions.next ≤ d.id ∧ d.completedAt = none ∧
      (∃ target ∈ targets, d.Names target.storageLocation target.objectKey) ∧
      ∀ d' ∈ db.deletions, ¬d'.Names d.storageLocation d.objectKey
  next_le : db.deletions.next ≤ db'.deletions.next
  unique : db.FactsUnique → db'.FactsUnique

variable {db : FileDb} {upload : FileUpload} {file : FileAsset} {target : DeletionTarget}
  {targets : List DeletionTarget} {now : ℕ}

theorem FactsAdded.refl (db : FileDb) : FactsAdded db db targets :=
  ⟨fun _ h => h, fun _ h => .inl h, le_rfl, id⟩

/-- The other tables are as they were. -/
structure OnlyFacts (db db' : FileDb) : Prop where
  uploads : db'.uploads = db.uploads
  files : db'.files = db.files
  objects : db'.objects = db.objects
  quotas : db'.quotas = db.quotas
  inactiveUsers : db'.inactiveUsers = db.inactiveUsers
  tables : db'.toConversationTables = db.toConversationTables
  attachments : db'.attachments = db.attachments

theorem OnlyFacts.refl (db : FileDb) : OnlyFacts db db := ⟨rfl, rfl, rfl, rfl, rfl, rfl, rfl⟩

theorem enqueueDeletion_onlyFacts : OnlyFacts db (db.enqueueDeletion now target) := by
  unfold enqueueDeletion
  split <;> exact ⟨rfl, rfl, rfl, rfl, rfl, rfl, rfl⟩

/-- Writing facts touches no other table. -/
theorem enqueueDeletions_onlyFacts : OnlyFacts db (db.enqueueDeletions targets now) := by
  induction targets generalizing db with
  | nil => exact .refl db
  | cons target targets ih =>
    have hfirst : OnlyFacts db (db.enqueueDeletion now target) := enqueueDeletion_onlyFacts
    have hrest : OnlyFacts (db.enqueueDeletion now target)
        ((db.enqueueDeletion now target).enqueueDeletions targets now) := ih
    exact ⟨hrest.uploads.trans hfirst.uploads, hrest.files.trans hfirst.files,
      hrest.objects.trans hfirst.objects, hrest.quotas.trans hfirst.quotas,
      hrest.inactiveUsers.trans hfirst.inactiveUsers,
      hrest.tables.trans hfirst.tables, hrest.attachments.trans hfirst.attachments⟩

theorem enqueueDeletion_factsAdded (hmem : target ∈ targets) :
    FactsAdded db (db.enqueueDeletion now target) targets := by
  unfold enqueueDeletion
  split
  · exact .refl db
  · next hnone =>
    push Not at hnone
    refine ⟨fun d hd => Table.mem_insert.mpr (.inl hd), fun d hd => ?_, Nat.le_succ _, ?_⟩
    · rcases Table.mem_insert.mp hd with hold | rfl
      · exact .inl hold
      · exact .inr ⟨le_rfl, rfl, ⟨target, hmem, rfl, rfl⟩, hnone⟩
    · intro hunique d hd d' hd' hnames
      rcases Table.mem_insert.mp hd with hold | rfl <;>
        rcases Table.mem_insert.mp hd' with hold' | rfl
      · exact hunique d hold d' hold' hnames
      · exact absurd ⟨hnames.1.symm, hnames.2.symm⟩ (hnone d hold)
      · exact absurd hnames (hnone d' hold')
      · rfl

theorem FactsAdded.trans {db₁ db₂ db₃ : FileDb} (h₁ : FactsAdded db₁ db₂ targets)
    (h₂ : FactsAdded db₂ db₃ targets) : FactsAdded db₁ db₃ targets where
  kept d hd := h₂.kept d (h₁.kept d hd)
  added d hd := by
    rcases h₂.added d hd with hold | ⟨hnext, hopen, htarget, hfree⟩
    · exact h₁.added d hold
    · exact .inr ⟨h₁.next_le.trans hnext, hopen, htarget, fun d' hd' => hfree d' (h₁.kept d' hd')⟩
  next_le := h₁.next_le.trans h₂.next_le
  unique h := h₂.unique (h₁.unique h)

theorem FactsAdded.mono {db₁ db₂ : FileDb} {targets' : List DeletionTarget}
    (h : FactsAdded db₁ db₂ targets) (hsub : ∀ t ∈ targets, t ∈ targets') :
    FactsAdded db₁ db₂ targets' where
  kept := h.kept
  added d hd := (h.added d hd).imp_right fun ⟨hnext, hopen, ⟨t, ht, hnames⟩, hfree⟩ =>
    ⟨hnext, hopen, ⟨t, hsub t ht, hnames⟩, hfree⟩
  next_le := h.next_le
  unique := h.unique

/-- Writing facts only adds facts, for its targets. -/
theorem enqueueDeletions_factsAdded : FactsAdded db (db.enqueueDeletions targets now) targets := by
  induction targets generalizing db with
  | nil => exact .refl db
  | cons target targets ih =>
    have hfirst : FactsAdded db (db.enqueueDeletion now target) (target :: targets) :=
      enqueueDeletion_factsAdded List.mem_cons_self
    exact hfirst.trans (ih.mono fun t ht => List.mem_cons_of_mem _ ht)

theorem exists_enqueueDeletion (now : ℕ) (db : FileDb) (target : DeletionTarget) :
    ∃ d ∈ (db.enqueueDeletion now target).deletions,
      d.Names target.storageLocation target.objectKey := by
  unfold enqueueDeletion
  split
  · next hsome => exact hsome
  · exact ⟨_, Table.mem_insert.mpr (.inr rfl), rfl, rfl⟩

/-- Afterwards there is a fact for every target. -/
theorem exists_enqueueDeletions (h : target ∈ targets) :
    ∃ d ∈ (db.enqueueDeletions targets now).deletions,
      d.Names target.storageLocation target.objectKey := by
  induction targets generalizing db with
  | nil => cases h
  | cons first targets ih =>
    rcases List.mem_cons.mp h with rfl | h
    · obtain ⟨d, hd, hnames⟩ := exists_enqueueDeletion now db target
      have hadded : FactsAdded (db.enqueueDeletion now target)
          ((db.enqueueDeletion now target).enqueueDeletions targets now) targets :=
        enqueueDeletions_factsAdded
      exact ⟨d, hadded.kept d hd, hnames⟩
    · exact ih h

/-- What beginning the deletion of an asset does, in full. -/
theorem beginAssetDeletion_eq_ok {db' : FileDb} :
    db.beginAssetDeletion file now = .ok db' ↔
      (file.deletionStartedAt ≠ none ∧ db' = db) ∨
      file.deletionStartedAt = none ∧ ∃ row ∈ db.files, row.id = file.id ∧
        let marked := { db with files := db.files.set { row with deletionStartedAt := some now } }
        let facts := marked.enqueueDeletions
          ((marked.objectsOf file.id).flatMap (FileObject.targets file.purpose)) now
        db' = if file.purpose = .messageAttachment
          then facts.releaseUsedBytes file.userId file.sizeBytes else facts := by
  unfold beginAssetDeletion
  by_cases hstarted : file.deletionStartedAt = none
  · cases hrow : db.files.get? file.id with
    | none =>
      have hnone := Table.get?_eq_none_iff.mp hrow
      simp only [hstarted, ne_eq, not_true_eq_false, if_false, reduceCtorEq, false_and, true_and,
        false_or, false_iff]
      rintro ⟨row, hmem, hid, -⟩
      exact hnone row hmem hid
    | some row =>
      obtain ⟨hmem, hid⟩ := Table.get?_eq_some_iff.mp hrow
      simp only [hstarted, ne_eq, not_true_eq_false, if_false, false_and, true_and, false_or,
        Except.ok.injEq]
      constructor
      · rintro rfl
        exact ⟨row, hmem, hid, rfl⟩
      · rintro ⟨row', hmem', hid', rfl⟩
        rw [Table.eq_of_key_eq hmem' hmem (hid'.trans hid.symm)]
  · simp [hstarted, eq_comm]

end FileDb

end IChat.Files
