import IChat.Files.Avatars

/-!
# Runs of the avatar workflow

The step system of `avatar.py`: requests, any number of processing attempts, the sweep, take-downs
and deactivations, interleaved in any order. A step is one transaction, one answer of the object
store, or the end of an attempt.

An attempt goes from its claim to the staging object it deletes (`AvatarPhase`). It can fail at any
point before its final commit, and it does not notice when its lease expires.
-/

namespace IChat.Files

/-- Where an attempt stands. -/
inductive AvatarPhase
  /-- It has the lease, and downloads and renders. -/
  | claimed
  /-- The manifest is stored, and the public object is written. -/
  | persisted (manifest : List ManifestEntry)
  /-- `_commit_avatar_success` has read the upload, and waits for its locks. -/
  | observed (manifest : List ManifestEntry) (seen : FileUpload)
  /-- An error is to be recorded. -/
  | failing (code : String) (retryable : Bool)
  /-- `_commit_avatar_success` has answered, and the staging object is to be deleted. -/
  | committed
  /-- The staging object is deleted. -/
  | cleaned
  deriving DecidableEq

/-- What a processing attempt keeps. -/
structure AvatarAttempt where
  uploadId : ℕ
  owner : ℕ
  moment : ℕ
  attemptCount : ℕ
  existingManifest : List ManifestEntry
  phase : AvatarPhase
  deriving DecidableEq

/-- The database, the attempts and the take-downs that are going on, and the public keys handed
out so far, each with the upload it was generated for. -/
structure AvatarWorld extends AvatarDb where
  attempts : ℕ → Option AvatarAttempt
  takeDowns : ℕ → Option (ℕ × UserAvatar)
  nextKey : ℕ
  generatedFor : ℕ → Option ℕ

/-- The avatars from before the files domain: some users have an object key, below a bound. -/
structure LegacyAvatars where
  key : ℕ → Option ℕ
  next : ℕ
  lt_next : ∀ userId k, key userId = some k → k < next

/-- No avatars from before. -/
def LegacyAvatars.none : LegacyAvatars := ⟨fun _ => .none, 0, fun _ _ h => by cases h⟩

/-- No uploads yet. -/
def AvatarWorld.init (legacy : LegacyAvatars) : AvatarWorld where
  toFileDb := .empty
  avatars userId := ⟨none, legacy.key userId⟩
  attempts _ := none
  takeDowns _ := none
  nextKey := legacy.next
  generatedFor _ := none

/-- The steps of the workflow. -/
inductive AvatarAction
  | create (userId : ℕ) (contentType : List Char) (sizeBytes now : ℕ)
  | confirm (userId uploadId : ℕ) (etag : List Char) (metadata : Option StorageObjectMetadata)
      (now : ℕ)
  | claim (t uploadId owner now : ℕ)
  | persist (t : ℕ) (rendered : RenderedAvatar)
  /-- A download, a render or an upload to the public bucket raises. -/
  | raise (t : ℕ) (code : String) (retryable : Bool)
  | finishError (t : ℕ)
  | observe (t : ℕ)
  | commit (t : ℕ)
  | deleteStaging (t : ℕ) (deleted : Bool)
  | recordStaging (t now : ℕ)
  /-- The worker of the attempt dies. -/
  | crash (t : ℕ)
  | sweep (selection : SweepSelection) (now : ℕ)
  /-- A session reads a user whose avatar it is going to take down. -/
  | readUser (k userId : ℕ)
  | takeDown (k now : ℕ)
  | deactivate (userId now : ℕ)

namespace AvatarWorld

/-- The attempt goes on in another phase. -/
def setPhase (w : AvatarWorld) (t : ℕ) (a : AvatarAttempt) (phase : AvatarPhase) : AvatarWorld :=
  { w with attempts := Function.update w.attempts t (some { a with phase }) }

/-- The attempt is over. -/
def endAttempt (w : AvatarWorld) (t : ℕ) : AvatarWorld :=
  { w with attempts := Function.update w.attempts t none }

/-- `owner` claims an upload. -/
def claim (s : AvatarSettings) (t uploadId owner now : ℕ) (w : AvatarWorld) :
    Option AvatarWorld :=
  match w.attempts t, w.claimAvatarUpload s owner uploadId now with
  | none, .ok (db, upload) =>
    some { w with
      toFileDb := db
      attempts := Function.update w.attempts t (some
        { uploadId
          owner
          moment := now
          attemptCount := upload.attemptCount
          existingManifest := upload.entries
          phase := .claimed }) }
  | _, _ => none

/-- The picture is rendered and its manifest stored. A key is generated even if the manifest of the
upload is not used. -/
def persist (t : ℕ) (a : AvatarAttempt) (rendered : RenderedAvatar) (w : AvatarWorld) :
    AvatarWorld :=
  let manifest := avatarManifest a.existingManifest w.nextKey rendered
  let keyed := { w with
    nextKey := w.nextKey + 1
    generatedFor := Function.update w.generatedFor w.nextKey (some a.uploadId) }
  match w.persistAvatarManifest a.uploadId a.owner manifest with
  | .ok db => { keyed with toFileDb := db }.setPhase t a (.persisted manifest)
  | .error (.processing code) => keyed.setPhase t a (.failing code false)
  | .error _ => keyed.setPhase t a (.failing "processing_failed" true)

/-- A step of an attempt. -/
def attemptStep (s : AvatarSettings) (w : AvatarWorld) (a : AvatarAttempt) :
    AvatarAction → Option AvatarWorld
  | .persist t rendered =>
    match a.phase with
    | .claimed => some (w.persist t a rendered)
    | _ => none
  | .raise t code retryable =>
    match a.phase with
    | .claimed | .persisted _ => some (w.setPhase t a (.failing code retryable))
    | _ => none
  | .finishError t =>
    match a.phase with
    | .failing code retryable =>
      match w.finishAvatarError s a.uploadId a.owner code retryable a.attemptCount a.moment with
      | .ok (db, _) => some ({ w with toFileDb := db }.endAttempt t)
      | .error _ => some (w.endAttempt t)
    | _ => none
  | .observe t =>
    match a.phase, w.uploads.get? a.uploadId with
    | .persisted manifest, some seen => some (w.setPhase t a (.observed manifest seen))
    | .persisted _, none => some (w.setPhase t a .committed)
    | _, _ => none
  | .commit t =>
    match a.phase with
    | .observed manifest seen =>
      match w.commitAvatarSuccess a.owner seen manifest a.moment with
      | .ok (db, _) => some ({ w with toAvatarDb := db }.setPhase t a .committed)
      -- the exception leaves `process_avatar_upload`
      | .error _ => some (w.endAttempt t)
    | _ => none
  | .deleteStaging t deleted =>
    match a.phase with
    | .committed => some (if deleted then w.setPhase t a .cleaned else w.endAttempt t)
    | _ => none
  | .recordStaging t now =>
    match a.phase with
    | .cleaned =>
      some ({ w with toFileDb := w.recordAvatarStagingDeleted a.uploadId now }.endAttempt t)
    | _ => none
  | .crash t => some (w.endAttempt t)
  | _ => none

/-- The attempt that takes the step. -/
def actor : AvatarAction → Option ℕ
  | .persist t _ | .raise t _ _ | .finishError t | .observe t | .commit t | .deleteStaging t _
  | .recordStaging t _ | .crash t => some t
  | _ => none

/-- One step. A request that is refused is no step, since its session rolls back. -/
def step (s : AvatarSettings) (w : AvatarWorld) (action : AvatarAction) : Option AvatarWorld :=
  match actor action with
  | some t => (w.attempts t).bind fun a => w.attemptStep s a action
  | none =>
    match action with
    | .create userId contentType sizeBytes now =>
      (w.createAvatarUpload s.toSettings userId "avatar.webp" contentType sizeBytes now)
        |>.toOption.map fun db => { w with toFileDb := db }
    | .confirm userId uploadId etag metadata now =>
      (w.confirmAvatarUpload userId uploadId etag metadata now).toOption.map
        fun db => { w with toFileDb := db }
    | .claim t uploadId owner now => w.claim s t uploadId owner now
    | .sweep selection now =>
      (w.sweepAvatarUploads s selection now).toOption.map fun db => { w with toFileDb := db }
    | .readUser k userId =>
      some { w with takeDowns := Function.update w.takeDowns k (some (userId, w.avatars userId)) }
    | .takeDown k now =>
      (w.takeDowns k).map fun (userId, seen) =>
        { w with
          toAvatarDb := w.takeDownUserAvatar userId seen now
          takeDowns := Function.update w.takeDowns k none }
    | .deactivate userId now =>
      (w.deactivateUserAvatar userId now).toOption.map fun db => { w with toAvatarDb := db }
    | _ => none

end AvatarWorld

/-! ### What is promised -/

/-- The avatars shown have not begun to go, and the others have. -/
structure AvatarSafe (db : AvatarDb) : Prop where
  /-- A user's avatar is an avatar asset whose deletion has not started, and there is no deletion
  fact for its public object. -/
  shown : ∀ userId fileId, (db.avatars userId).avatarFileId = some fileId →
    ∃ file ∈ db.files, file.id = fileId ∧ file.purpose = .avatar ∧ file.deletionStartedAt = none ∧
      ∀ object ∈ db.objects, object.fileId = fileId → ¬db.HasFact object.objectKey
  /-- An avatar asset that is nobody's avatar is being deleted, and there is a deletion fact for its
  public object. -/
  retired : ∀ file ∈ db.files, file.purpose = .avatar →
    (∀ userId, (db.avatars userId).avatarFileId ≠ some file.id) →
      file.deletionStartedAt ≠ none ∧
        ∀ object ∈ db.objects, object.fileId = file.id → db.HasFact object.objectKey
  /-- An avatar asset has a public object. -/
  stored : ∀ file ∈ db.files, file.purpose = .avatar →
    ∃ object ∈ db.objects, object.fileId = file.id ∧ object.storageLocation = .avatarPublic

/-- What is promised of a state: its database is safe, and no attempt is about to delete the staging
object of an upload that is queued or processing. -/
structure AvatarWorldSafe (w : AvatarWorld) : Prop extends AvatarSafe w.toAvatarDb where
  staging : ∀ t a upload, w.attempts t = some a → a.phase = .committed →
    w.uploads.get? a.uploadId = some upload → upload.status ≠ .queued ∧ upload.status ≠ .processing

end IChat.Files
