import IChat.General.StepSystem

/-!
# Files of a draft, on their way to the storage

`useAttachmentUploads` keeps the files that are attached to an unsent message. For every file,
`startFile` runs a task: it creates an upload, sends the file to the storage, confirms the upload.
After each of its awaits it looks whether the scope, the user and the conversation, is still the
one it was started in, and not whether its draft is still there. `cancelAttachment` aborts the
requests to the storage, and cancels the upload whose id the draft has.

`AttachmentUploads` is the state of the hook, together with the tasks and a history of what the user
and the network have seen; `uploadStep` is what can happen next. What the user sees of the files
(names, sizes, previews, progress, texts) is left out, and so are, in the history, the requests of
`removeImages`, which cancels all images at once.
-/

namespace IChat.Frontend

open StepSystem

/-- Whose drafts are shown: those of a user, if anyone is logged in, in a conversation. -/
abbrev DraftScope := Option ℕ × ℕ

structure DraftAttachment where
  clientId : ℕ
  uploadId : Option ℕ
deriving DecidableEq

/-- What a task waits for. The file is sent by workers: one for a single request, up to three for a
multipart upload. When a part fails, the task ends, and the other workers go on. -/
inductive UploadPhase
  | creating
  | uploading (uploadId workers : ℕ)
  | confirming (uploadId : ℕ)
  | ended (workers : ℕ)
deriving DecidableEq

namespace UploadPhase

def workers : UploadPhase → ℕ
  | uploading _ n | ended n => n
  | creating | confirming _ => 0

/-- `abortControllersRef.current.get(clientId)?.abort()`. There is a controller while the file is
being uploaded; all requests to the storage are rejected, and the task ends with an `AbortError`. -/
def abort : UploadPhase → UploadPhase
  | uploading _ _ => ended 0
  | phase => phase

end UploadPhase

structure UploadTask where
  /-- The version of the scope in which the task was started. -/
  scopeVersion : ℕ
  phase : UploadPhase
  /-- `sourcesRef` has the file. -/
  source : Bool

def UploadTask.discard (task : UploadTask) : UploadTask :=
  { task with phase := task.phase.abort, source := false }

inductive UploadEvent
  /-- The server has created an upload. -/
  | created (clientId uploadId : ℕ)
  /-- A request to the storage, or to confirm the upload, by a task of a version of the scope. -/
  | put (clientId scopeVersion : ℕ)
  | confirm (clientId scopeVersion : ℕ)
  /-- The user has cancelled a file that is among the drafts. -/
  | cancelled (clientId : ℕ)
  /-- A request to cancel an upload. -/
  | cancel (uploadId : ℕ)
  /-- The user has left the scope. -/
  | left (scopeVersion : ℕ)
deriving DecidableEq

/-- The state of the hook. The drafts of the scope are the ones shown; those of the others are in
the local storage. A task is known by the client id of its file. -/
structure AttachmentUploads where
  scope : DraftScope
  scopeVersion : ℕ
  drafts : DraftScope → List DraftAttachment
  tasks : ℕ → Option UploadTask
  /-- The files whose `cancelAttachment` waits for an answer. -/
  cancelling : List ℕ
  nextClient : ℕ
  nextUpload : ℕ
  /-- What has happened, the last event first. -/
  history : List UploadEvent

inductive UploadAction
  | startFile
  /-- `createUpload` is answered with a session, for so many workers. -/
  | created (clientId workers : ℕ)
  | createFailed (clientId : ℕ)
  /-- A worker sends a part, or sends it again. -/
  | put (clientId : ℕ)
  /-- A worker has no more parts to send. -/
  | partsSent (clientId : ℕ)
  /-- A worker gives up. -/
  | partFailed (clientId : ℕ)
  /-- `confirm` fails, or is answered with a record that has a failed status or not. -/
  | confirmed (clientId : ℕ) (rejected : Option Bool)
  | cancelAttachment (clientId : ℕ)
  | cancelAnswered (clientId : ℕ) (failed : Bool)
  | retryAttachment (clientId : ℕ)
  /-- The status request has found a failed status of an upload. -/
  | polled (uploadId : ℕ)
  /-- The cancellation of all images has been answered. -/
  | removeImages (images : ℕ → Bool)
  | clear
  /-- A new scope; from the local storage, `clearAll` has removed some drafts in the meantime. -/
  | setScope (scope : DraftScope) (cleared : DraftScope → Bool)

namespace AttachmentUploads

def init (scope : DraftScope) : AttachmentUploads :=
  ⟨scope, 0, fun _ => [], fun _ => none, [], 0, 0, []⟩

def attachments (w : AttachmentUploads) : List DraftAttachment := w.drafts w.scope

def commit (w : AttachmentUploads) (updater : List DraftAttachment → List DraftAttachment) :
    AttachmentUploads :=
  { w with drafts := Function.update w.drafts w.scope (updater w.attachments) }

def removeDrafts (w : AttachmentUploads) (gone : DraftAttachment → Bool) : AttachmentUploads :=
  w.commit (·.filter (!gone ·))

def log (w : AttachmentUploads) (event : UploadEvent) : AttachmentUploads :=
  { w with history := event :: w.history }

def mapTasks (w : AttachmentUploads) (f : ℕ → UploadTask → UploadTask) : AttachmentUploads :=
  { w with tasks := fun c => (w.tasks c).map (f c) }

def setPhase (w : AttachmentUploads) (clientId : ℕ) (phase : UploadPhase) : AttachmentUploads :=
  w.mapTasks fun c task => if c = clientId then { task with phase } else task

/-- `discardLocalAttachment`, for each of the files. -/
def discardLocalAttachments (w : AttachmentUploads) (gone : ℕ → Bool) : AttachmentUploads :=
  w.mapTasks fun c task => if gone c then task.discard else task

/-- `abortControllersRef.current.get(clientId)?.abort()` -/
def abort (w : AttachmentUploads) (clientId : ℕ) : AttachmentUploads :=
  w.mapTasks fun c task => if c = clientId then { task with phase := task.phase.abort } else task

def startFile (w : AttachmentUploads) : AttachmentUploads :=
  { w.commit (· ++ [⟨w.nextClient, none⟩]) with
    tasks := Function.update w.tasks w.nextClient (some ⟨w.scopeVersion, .creating, true⟩)
    nextClient := w.nextClient + 1 }

/-- The task ends with an error. In its scope, the file is discarded; its controller is gone
by then, and the workers that are left are not aborted. -/
def caught (w : AttachmentUploads) (clientId : ℕ) (task : UploadTask) (workers : ℕ) :
    AttachmentUploads :=
  if task.scopeVersion = w.scopeVersion then
    ((w.removeDrafts (·.clientId == clientId)).setPhase clientId
      (.ended workers)).discardLocalAttachments (· == clientId)
  else w.setPhase clientId (.ended workers)

/-- The drafts of an upload that has failed, and their files. -/
def dropUpload (w : AttachmentUploads) (uploadId : ℕ) : AttachmentUploads :=
  let gone (draft : DraftAttachment) : Bool := draft.uploadId == some uploadId
  (w.discardLocalAttachments fun c =>
    w.attachments.any fun draft => draft.clientId == c && gone draft).removeDrafts gone

/-- `updateUploadRecord`, of a record with a failed status. -/
def rejectUpload (w : AttachmentUploads) (clientId uploadId : ℕ) : AttachmentUploads :=
  ((w.dropUpload uploadId).discardLocalAttachments (· == clientId)).removeDrafts
    (·.clientId == clientId)

/-- The draft of the file gets the id of its upload. -/
def commitUploadId (w : AttachmentUploads) (clientId uploadId : ℕ) : AttachmentUploads :=
  w.commit (·.map fun draft =>
    if draft.clientId = clientId then { draft with uploadId := some uploadId } else draft)

/-- `createUpload` is answered. -/
def createAnswered (w : AttachmentUploads) (clientId workers : ℕ) (task : UploadTask) :
    AttachmentUploads :=
  let uploadId := w.nextUpload
  let w := { w.log (.created clientId uploadId) with nextUpload := uploadId + 1 }
  if task.scopeVersion = w.scopeVersion then
    (w.commitUploadId clientId uploadId).setPhase clientId (.uploading uploadId workers)
  else w.setPhase clientId (.ended 0)

def partsSent (w : AttachmentUploads) (clientId : ℕ) (task : UploadTask) : AttachmentUploads :=
  match task.phase with
  | .uploading uploadId 1 =>
    if task.scopeVersion = w.scopeVersion then
      (w.log (.confirm clientId task.scopeVersion)).setPhase clientId (.confirming uploadId)
    else w.setPhase clientId (.ended 0)
  | .uploading uploadId n => w.setPhase clientId (.uploading uploadId (n - 1))
  | .ended n => w.setPhase clientId (.ended (n - 1))
  | .creating | .confirming _ => w

def partFailed (w : AttachmentUploads) (clientId : ℕ) (task : UploadTask) : AttachmentUploads :=
  match task.phase with
  | .uploading _ n => w.caught clientId task (n - 1)
  | .ended n => w.setPhase clientId (.ended (n - 1))
  | .creating | .confirming _ => w

def confirmAnswered (w : AttachmentUploads) (clientId uploadId : ℕ) (task : UploadTask) :
    Option Bool → AttachmentUploads
  | none => w.caught clientId task 0
  | some rejected =>
    let w := w.setPhase clientId (.ended 0)
    if task.scopeVersion = w.scopeVersion ∧ rejected then w.rejectUpload clientId uploadId else w

/-- The file is gone from the drafts, and nothing is left of it. -/
def forget (w : AttachmentUploads) (clientId : ℕ) : AttachmentUploads :=
  (w.discardLocalAttachments (· == clientId)).removeDrafts (·.clientId == clientId)

/-- `cancelAttachment`, until it waits. -/
def cancelAttachment (w : AttachmentUploads) (clientId : ℕ) : AttachmentUploads :=
  match w.attachments.find? (·.clientId == clientId) with
  | none => w
  | some attachment =>
    let w := (w.abort clientId).log (.cancelled clientId)
    match attachment.uploadId with
    | some uploadId => { w.log (.cancel uploadId) with cancelling := clientId :: w.cancelling }
    | none => w.forget clientId

def retryAttachment (w : AttachmentUploads) (clientId : ℕ) : AttachmentUploads :=
  if (w.tasks clientId).any (·.source) then (w.forget clientId).startFile else w

/-- The effect of a new scope. Of the drafts in the local storage, only those of the user are kept;
without one, nothing is read or written. (Drafts with a failed status are not restored; they have
been removed as soon as the status was known.) -/
def setScope (w : AttachmentUploads) (scope : DraftScope) (cleared : DraftScope → Bool) :
    AttachmentUploads :=
  let w := (w.discardLocalAttachments fun _ => true).log (.left w.scopeVersion)
  { w with
    scope
    scopeVersion := w.scopeVersion + 1
    drafts := fun key =>
      let own := if scope.1.isSome then key.1 == scope.1 else key.1.isSome
      if own && !cleared key then w.drafts key else [] }

/-- The end of `removeImages`. -/
def removeImages (w : AttachmentUploads) (images : ℕ → Bool) : AttachmentUploads :=
  (w.discardLocalAttachments images).removeDrafts fun draft => images draft.clientId

/-- `clear`: the message has been sent. -/
def clear (w : AttachmentUploads) : AttachmentUploads :=
  (w.discardLocalAttachments fun _ => true).removeDrafts fun _ => true

end AttachmentUploads

open AttachmentUploads in
def uploadStep (w : AttachmentUploads) : UploadAction → Option AttachmentUploads
  | .startFile => some w.startFile
  | .created c workers => do
    let task ← w.tasks c
    guard (task.phase = .creating ∧ 0 < workers)
    return w.createAnswered c workers task
  | .createFailed c => do
    let task ← w.tasks c
    guard (task.phase = .creating)
    return w.caught c task 0
  | .put c => do
    let task ← w.tasks c
    guard (0 < task.phase.workers)
    return w.log (.put c task.scopeVersion)
  | .partsSent c => do
    let task ← w.tasks c
    guard (0 < task.phase.workers)
    return w.partsSent c task
  | .partFailed c => do
    let task ← w.tasks c
    guard (0 < task.phase.workers)
    return w.partFailed c task
  | .confirmed c rejected => do
    let task ← w.tasks c
    match task.phase with
    | .confirming uploadId => return w.confirmAnswered c uploadId task rejected
    | _ => none
  | .cancelAttachment c => some (w.cancelAttachment c)
  | .cancelAnswered c failed => do
    guard (c ∈ w.cancelling)
    let w := { w with cancelling := w.cancelling.erase c }
    return if failed then w else w.forget c
  | .retryAttachment c => some (w.retryAttachment c)
  | .polled uploadId => some (w.dropUpload uploadId)
  | .removeImages images => some (w.removeImages images)
  | .clear => some w.clear
  | .setScope scope cleared => some (w.setScope scope cleared)

end IChat.Frontend
