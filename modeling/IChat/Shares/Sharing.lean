import Mathlib.Data.List.Sort
import Mathlib.Logic.Function.Basic
import IChat.General.ReadCommitted
import IChat.General.StepSystem
import IChat.Shares.Snapshot

/-!
# Creating and revoking shares

`create_share` and `revoke_share`, each in a transaction of its own at read committed, beside
changes of the live tables, which may rewrite conversations, messages, attachments and files in any
way between two statements.

* A create holds the row of its conversation from the moment it has read it, so the check for an
  active share and the insert are one step for the other creates of the conversation.
* `World.Change` lists what one step of a request can do, and `SharesInv` is kept by every step.

`sharing_safety` collects what holds in every run: at most one share of a conversation is active at
any time, the snapshot of a share exposes only what was read for it, and whatever the public reads
later is what was stored.
-/

namespace IChat.Shares

open ReadCommitted StepSystem

/-- A row of `share_links`. -/
structure ShareLink where
  token : String
  conversationId : ℕ
  createdBy : ℕ
  snapshot : Dict
  revokedAt : Option ℕ
  expiresAt : Option ℕ
  createdAt : ℕ

/-- `_active_share_filter`. -/
def ShareLink.Active (now : ℕ) (share : ShareLink) : Prop :=
  share.revokedAt = none ∧ ∀ expires ∈ share.expiresAt, now < expires

instance (now : ℕ) (share : ShareLink) : Decidable (share.Active now) :=
  inferInstanceAs (Decidable (_ ∧ ∀ expires ∈ share.expiresAt, now < expires))

/-- The columns of `conversations` that the requests read. -/
structure Conversation where
  id : ℕ
  userId : ℕ
  title : Option String
  deletedAt : Option ℕ

/-- The live tables, with the keys they keep. -/
structure LiveTables where
  activeUsers : List ℕ
  conversations : List Conversation
  messages : List Message
  attachments : List MessageAttachment
  files : List FileAsset
  previews : List ℕ
  messageIds : (messages.map (·.id)).Nodup
  attachmentPositions : (attachments.map fun a => (a.messageId, a.position)).Nodup

/-- `get_owned_visible_conversation`. -/
def LiveTables.visibleConversation (live : LiveTables) (userId id : ℕ) : Option Conversation :=
  live.conversations.find? fun conversation =>
    conversation.id = id ∧ conversation.userId = userId ∧ conversation.deletedAt = none

/-- The unarchived messages of a conversation, by position. -/
def LiveTables.conversationMessages (live : LiveTables) (conversationId : ℕ) : List Message :=
  (live.messages.filter fun message =>
    message.conversationId = conversationId ∧ message.archivedAt = none).insertionSort
      fun message other => message.position ≤ other.position

/-- The join of `attachment_responses`, by message and position. -/
def LiveTables.attachmentRows (live : LiveTables) (messages : List Message) :
    List (MessageAttachment × Option FileAsset) :=
  ((live.attachments.filter fun attachment =>
    attachment.messageId ∈ messages.map (·.id)).insertionSort fun attachment other =>
      attachment.messageId < other.messageId ∨
        attachment.messageId = other.messageId ∧ attachment.position ≤ other.position).map
    fun attachment =>
      (attachment, attachment.fileId.bind fun id => live.files.find? (·.id = id))

theorem LiveTables.conversationMessages_ids (live : LiveTables) (conversationId : ℕ) :
    ((live.conversationMessages conversationId).map (·.id)).Nodup := by
  rw [conversationMessages, ((List.perm_insertionSort _ _).map _).nodup_iff]
  exact live.messageIds.sublist (List.filter_sublist.map _)

theorem LiveTables.attachmentRows_positions (live : LiveTables) (messages : List Message) :
    ((live.attachmentRows messages).map fun row => (row.1.messageId, row.1.position)).Nodup := by
  rw [attachmentRows, List.map_map]
  refine ((List.perm_insertionSort _ _).map _).nodup_iff.mpr ?_
  exact live.attachmentPositions.sublist (List.filter_sublist.map _)

/-- A request of a user about a conversation. -/
inductive Request
  | createShare (userId conversation : ℕ) (expiresInDays : Option ℕ)
      (confirmAttachmentPrivacy : Bool) (token : String)
  | revokeShare (userId conversation : ℕ) (token : String)
  deriving DecidableEq, Repr

def Request.conversation : Request → ℕ
  | .createShare _ conversation _ _ _ | .revokeShare _ conversation _ => conversation

inductive Outcome
  | created | revoked | conversationNotFound | activeShareExists | confirmationRequired
  | shareNotFound | aborted
  deriving DecidableEq, Repr

/-- How far a request has come, with what it has read. -/
inductive Phase
  | begun
  | userLocked
  | conversationLocked (title : Option String)
  | checked (title : Option String)
  | messagesRead (title : Option String) (messages : List Message)
      (ids : (messages.map (·.id)).Nodup)
  | attachmentsRead (title : Option String) (messages : List Message)
      (rows rest : List (MessageAttachment × Option FileAsset)) (previews : List ℕ)
      (ids : (messages.map (·.id)).Nodup)
      (positions : (rows.map fun row => (row.1.messageId, row.1.position)).Nodup)
  | inserted
  | conversationSeen
  | shareLocked (share : ShareLink) (id : ℕ)
  | written
  | finished (outcome : Outcome)

/-- A request and the `now()` of its transaction. -/
structure Session where
  request : Request
  now : ℕ
  phase : Phase

/-- The live tables, the shares, the holders of the rows of conversations, the clock and the
requests. -/
structure World where
  live : LiveTables
  shares : Store ShareLink
  locks : ℕ → Option ℕ
  clock : ℕ
  requests : ℕ → Option Session

namespace World

def goto (w : World) (txn : ℕ) (session : Session) (phase : Phase) : World :=
  { w with requests := Function.update w.requests txn (some { session with phase }) }

/-- The end of a transaction, which gives back its lock on a conversation. -/
def finish (w : World) (txn : ℕ) (session : Session) (outcome : Outcome)
    (shares : Store ShareLink) : World :=
  goto { w with shares, locks := fun id => if w.locks id = some txn then none else w.locks id }
    txn session (.finished outcome)

def commit (w : World) (txn : ℕ) (session : Session) (outcome : Outcome) : World :=
  w.finish txn session outcome (ReadCommitted.commit txn w.shares)

/-- An exception, or the loss of the connection. -/
def rollback (w : World) (txn : ℕ) (session : Session) (outcome : Outcome) : World :=
  w.finish txn session outcome (ReadCommitted.rollback txn w.shares)

/-- The row is the share of a token. -/
def HasToken (version : Row ShareLink → Option ShareLink) (token : String)
    (row : Row ShareLink) : Prop :=
  ∃ share ∈ version row, share.token = token

instance (version : Row ShareLink → Option ShareLink) (token : String) (row : Row ShareLink) :
    Decidable (HasToken version token row) :=
  inferInstanceAs (Decidable (∃ share ∈ version row, share.token = token))

/-- The `INSERT`, under the unique constraint on the token: a committed row with the token is an
error, another transaction's has to be waited for. -/
def insertShare (w : World) (txn : ℕ) (session : Session) (share : ShareLink) : Option World :=
  if ∃ row ∈ w.shares, HasToken (·.committed) share.token row then
    some (w.rollback txn session .aborted)
  else if ∃ row ∈ w.shares, HasToken (fun row => row.pending.map (·.2)) share.token row then none
  else some ({ w with shares := ReadCommitted.insert txn share w.shares }.goto txn
    session .inserted)

/-- `create_share`. -/
def createShare (w : World) (txn : ℕ) (session : Session) (userId conversation : ℕ)
    (expiresInDays : Option ℕ) (confirmAttachmentPrivacy : Bool) (token : String) :
    Option World :=
  match session.phase with
  | .begun =>
    if userId ∈ w.live.activeUsers then some (w.goto txn session .userLocked)
    else some (w.rollback txn session .conversationNotFound)
  | .userLocked =>
    match w.live.visibleConversation userId conversation with
    | none => some (w.rollback txn session .conversationNotFound)
    | some found =>
      if w.locks conversation = none then
        some ({ w with locks := Function.update w.locks conversation (some txn) }.goto txn session
          (.conversationLocked found.title))
      else none
  | .conversationLocked title =>
    if ∃ row ∈ w.shares, ∃ share ∈ row.visible txn,
        share.conversationId = conversation ∧ share.Active session.now then
      some (w.rollback txn session .activeShareExists)
    else some (w.goto txn session (.checked title))
  | .checked title =>
    some (w.goto txn session (.messagesRead title (w.live.conversationMessages conversation)
      (w.live.conversationMessages_ids conversation)))
  | .messagesRead title messages ids =>
    let rows := w.live.attachmentRows messages
    some (w.goto txn session (.attachmentsRead title messages rows rows [] ids
      (w.live.attachmentRows_positions messages)))
  -- the preview of every file is looked up by a statement of its own
  | .attachmentsRead title messages rows (row :: rest) previews ids positions =>
    let found := (row.2.map (·.id)).toList.filter (· ∈ w.live.previews)
    some (w.goto txn session
      (.attachmentsRead title messages rows rest (found ++ previews) ids positions))
  | .attachmentsRead title messages rows [] previews ids positions =>
    if rows ≠ [] ∧ ¬confirmAttachmentPrivacy then
      some (w.rollback txn session .confirmationRequired)
    else
      let reading : Reading := ⟨title, messages, rows, previews, ids, positions⟩
      w.insertShare txn session
        { token
          conversationId := conversation
          createdBy := userId
          snapshot := reading.snapshot
          revokedAt := none
          expiresAt := expiresInDays.map fun days => session.now + days * 86400000
          createdAt := session.now }
  | .inserted => some (w.commit txn session .created)
  | _ => none

/-- `revoke_share`. -/
def revokeShare (w : World) (txn : ℕ) (session : Session) (userId conversation : ℕ)
    (token : String) : Option World :=
  match session.phase with
  | .begun =>
    match w.live.visibleConversation userId conversation with
    | none => some (w.rollback txn session .conversationNotFound)
    | some _ => some (w.goto txn session .conversationSeen)
  | .conversationSeen =>
    match w.shares.rows.find? fun row => ∃ share ∈ row.visible txn,
        share.token = token ∧ share.conversationId = conversation with
    | none => some (w.rollback txn session .shareNotFound)
    | some row =>
      match update txn row.id (fun share => share) w.shares with
      | none => none
      | some (share, shares) =>
        some ({ w with shares }.goto txn session (.shareLocked share row.id))
  | .shareLocked share id =>
    if share.revokedAt = none then
      match update txn id (fun share => { share with revokedAt := some session.now }) w.shares with
      | none => none
      | some (_, shares) => some ({ w with shares }.goto txn session .written)
    else some (w.goto txn session .written)
  | .written => some (w.commit txn session .revoked)
  | _ => none

def next (w : World) (txn : ℕ) (session : Session) : Option World :=
  match session.request with
  | .createShare userId conversation expiresInDays confirm token =>
    w.createShare txn session userId conversation expiresInDays confirm token
  | .revokeShare userId conversation token => w.revokeShare txn session userId conversation token

end World

/-- A request starts, takes its next step or loses its connection, the clock goes on, or something
else rewrites the live tables. -/
inductive Action
  | start (txn : ℕ) (request : Request)
  | advance (txn : ℕ)
  | abort (txn : ℕ)
  | tick (now : ℕ)
  | rewrite (live : LiveTables)

def step (w : World) : Action → Option World
  | .start txn request =>
    match w.requests txn with
    | some _ => none
    | none => some (w.goto txn ⟨request, w.clock, .begun⟩ .begun)
  | .advance txn =>
    match w.requests txn with
    | none => none
    | some session => w.next txn session
  | .abort txn =>
    match w.requests txn with
    | none => none
    | some session =>
      match session.phase with
      | .finished _ => none
      | _ => some (w.rollback txn session .aborted)
  | .tick now => if w.clock ≤ now then some { w with clock := now } else none
  | .rewrite live => some { w with live }

/-! ### The public reads -/

/-- The body of `get_public_share`, with the validated messages unless the validation raises. -/
structure PublicShareResponse (α : Type) where
  title : Option Json
  messages : Option (List α)
  createdAt : ℕ

/-- `get_public_share`; `none` is the error 404. -/
def getPublicShare {α : Type} (modelValidate : Json → Option α) (token : String) (now : ℕ)
    (shares : Store ShareLink) : Option (PublicShareResponse α) :=
  match (shares.rows.filterMap (·.committed)).find? (·.token = token) with
  | none => none
  | some share =>
    if share.Active now then
      some {
        title := Dict.get? share.snapshot "title"
        messages := (((Dict.get? share.snapshot "messages").bind Json.arr?).getD []).mapM
          modelValidate
        createdAt := share.createdAt }
    else none

inductive ReadError
  | shareNotFound | attachmentNotFound | typeError
  deriving DecidableEq, Repr

/-- `_resolve_share_attachment`: the file of a ref and the owner of the conversation. -/
def resolveShareAttachment (w : World) (token ref : String) (now : ℕ) :
    Except ReadError (Uuid × ℕ) :=
  match (w.shares.rows.filterMap (·.committed)).find? (·.token = token) with
  | none => .error .shareNotFound
  | some share =>
    match w.live.conversations.find? fun conversation =>
        conversation.id = share.conversationId ∧ conversation.deletedAt = none ∧
          conversation.userId ∈ w.live.activeUsers with
    | none => .error .shareNotFound
    | some conversation =>
      if share.Active now then
        match snapshotAttachmentFileId share.snapshot ref with
        | none => .error .typeError
        | some none => .error .attachmentNotFound
        | some (some file) => .ok (file, conversation.userId)
      else .error .shareNotFound

/-! ### What one step can do -/

/-- In some state a request that had come to a phase read this. -/
def Session.Read (session : Session) (seen : World → Prop) (txn : ℕ) (phase : Phase)
    (read : LiveTables → Prop) : Prop :=
  ∃ w, seen w ∧ w.requests txn = some { session with phase } ∧ read w.live

/-- What a request holds of its conversation it has read there: the messages as they stood in one
state, and their attachments as they stood in another. -/
def Session.ReadIn (seen : World → Prop) (txn : ℕ) (session : Session) : Prop :=
  match session.phase with
  | .messagesRead title messages _ => session.Read seen txn (.checked title) fun live =>
      messages = live.conversationMessages session.request.conversation
  | .attachmentsRead title messages rows _ _ ids _ =>
    (session.Read seen txn (.checked title) fun live =>
      messages = live.conversationMessages session.request.conversation) ∧
    session.Read seen txn (.messagesRead title messages ids) fun live =>
      rows = live.attachmentRows messages
  | _ => True

/-- The snapshot of the share was built from what the request that creates it read: the unarchived
messages of the conversation, and their attachments. -/
def ShareLink.Made (seen : World → Prop) (share : ShareLink) (reading : Reading) : Prop :=
  share.snapshot = reading.snapshot ∧ ∃ (txn : ℕ) (session : Session),
    session.request.conversation = share.conversationId ∧ session.now = share.createdAt ∧
    (session.Read seen txn (.checked reading.title) fun live =>
      reading.messages = live.conversationMessages share.conversationId) ∧
    session.Read seen txn (.messagesRead reading.title reading.messages reading.ids) fun live =>
      reading.rows = live.attachmentRows reading.messages

def Request.creates : Request → Bool
  | .createShare .. => true
  | .revokeShare .. => false

/-- A request holds the row of its conversation. -/
def Phase.holds : Phase → Bool
  | .conversationLocked _ | .checked _ | .messagesRead .. | .attachmentsRead .. | .inserted => true
  | _ => false

/-- A request has found no active share. -/
def Phase.hasChecked : Phase → Bool
  | .checked _ | .messagesRead .. | .attachmentsRead .. | .inserted => true
  | _ => false

def Phase.isInserted : Phase → Bool
  | .inserted => true
  | _ => false

/-- What a revocation may write over a share. -/
def ShareLink.Revises (old new : ShareLink) : Prop :=
  new = old ∨ ∃ revoked, new = { old with revokedAt := some revoked }

namespace World

/-- The effects of one step of a request. -/
inductive Change (w : World) (txn : ℕ) (session : Session) : World → Prop
  | move (phase : Phase) (pending : session.phase.isInserted = false)
      (inserted : phase.isInserted = false)
      (holds : phase.holds = true → session.phase.holds = true)
      (checks : phase.hasChecked = true → session.phase.hasChecked = true)
      (reads : ∀ seen : World → Prop, seen w → w.requests txn = some session →
        session.ReadIn seen txn → { session with phase }.ReadIn seen txn) :
      Change w txn session (w.goto txn session phase)
  | lock (title : Option String) (pending : session.phase.isInserted = false)
      (free : w.locks session.request.conversation = none) :
      Change w txn session
        ({ w with locks := Function.update w.locks session.request.conversation (some txn) }.goto
          txn session (.conversationLocked title))
  | check (title : Option String) (phase : session.phase = .conversationLocked title)
      (creates : session.request.creates = true)
      (inactive : ∀ row ∈ w.shares, ∀ share ∈ row.visible txn,
        share.conversationId = session.request.conversation → ¬share.Active session.now) :
      Change w txn session (w.goto txn session (.checked title))
  | insert (share : ShareLink) (pending : session.phase.isInserted = false)
      (checks : session.phase.hasChecked = true)
      (conversation : share.conversationId = session.request.conversation)
      (made : ∀ seen, session.ReadIn seen txn → ∃ reading, share.Made seen reading)
      (fresh : ∀ row ∈ w.shares, ∀ other,
        other ∈ row.committed ∨ other ∈ row.pending.map (·.2) → other.token ≠ share.token) :
      Change w txn session
        ({ w with shares := ReadCommitted.insert txn share w.shares }.goto txn session .inserted)
  | write {share : ShareLink} {shares : Store ShareLink} {id : ℕ} (f : ShareLink → ShareLink)
      (phase : Phase) (pending : session.phase.isInserted = false)
      (revokes : session.request.creates = false)
      (idle : phase.isInserted = false ∧ phase.holds = false ∧ phase.hasChecked = false)
      (revises : ∀ old : ShareLink, old.Revises (f old))
      (written : update txn id f w.shares = some (share, shares)) :
      Change w txn session ({ w with shares }.goto txn session phase)
  | commit (outcome : Outcome) : Change w txn session (w.commit txn session outcome)
  | rollback (outcome : Outcome) : Change w txn session (w.rollback txn session outcome)

variable {w w' : World} {txn : ℕ} {session : Session}

theorem insertShare_cases {share : ShareLink} (hpending : session.phase.isInserted = false)
    (hchecks : session.phase.hasChecked = true)
    (hconversation : share.conversationId = session.request.conversation)
    (hmade : ∀ seen, session.ReadIn seen txn → ∃ reading, share.Made seen reading)
    (h : w.insertShare txn session share = some w') : Change w txn session w' := by
  unfold insertShare at h
  by_cases hcommitted : ∃ row ∈ w.shares, HasToken (·.committed) share.token row
  · rw [if_pos hcommitted] at h
    cases h
    exact .rollback _
  rw [if_neg hcommitted] at h
  by_cases hwaits : ∃ row ∈ w.shares,
      HasToken (fun row => row.pending.map (·.2)) share.token row
  · rw [if_pos hwaits] at h
    cases h
  rw [if_neg hwaits] at h
  cases h
  refine .insert share hpending hchecks hconversation hmade fun row hrow other hother htoken => ?_
  obtain hold | hnew := hother
  · exact hcommitted ⟨row, hrow, other, hold, htoken⟩
  · exact hwaits ⟨row, hrow, other, hnew, htoken⟩

theorem createShare_cases {userId conversation : ℕ} {days : Option ℕ} {confirm : Bool}
    {token : String}
    (hrequest : session.request = .createShare userId conversation days confirm token)
    (h : w.createShare txn session userId conversation days confirm token = some w') :
    Change w txn session w' := by
  have hconversation : conversation = session.request.conversation := by rw [hrequest]; rfl
  subst hconversation
  -- by the phase: two locks, the check, the reads, the insertion and the commit
  cases hphase : session.phase with
  | begun =>
    simp only [createShare, hphase] at h
    split at h
    · cases h
      exact .move _ (by rw [hphase]; rfl) rfl nofun nofun fun _ _ _ _ => trivial
    · cases h
      exact .rollback _
  | userLocked =>
    simp only [createShare, hphase] at h
    split at h
    · cases h
      exact .rollback _
    · obtain ⟨hfree, heq⟩ := Option.ite_none_right_eq_some.mp h
      cases heq
      exact .lock _ (by rw [hphase]; rfl) hfree
  | conversationLocked title =>
    simp only [createShare, hphase] at h
    by_cases hexists : ∃ row ∈ w.shares, ∃ share ∈ row.visible txn,
        share.conversationId = session.request.conversation ∧ share.Active session.now
    · rw [if_pos hexists] at h
      cases h
      exact .rollback _
    · rw [if_neg hexists] at h
      cases h
      refine .check title hphase (by rw [hrequest]; rfl) ?_
      intro row hrow share hshare hmine hactive
      exact hexists ⟨row, hrow, share, hshare, hmine, hactive⟩
  | checked =>
    simp only [createShare, hphase] at h
    cases h
    refine .move _ (by rw [hphase]; rfl) rfl (fun _ => by rw [hphase]; rfl)
      (fun _ => by rw [hphase]; rfl) fun seen hseen hsession _ => ?_
    -- the messages are read in this very world
    exact ⟨w, hseen, by rw [← hphase]; exact hsession, rfl⟩
  | messagesRead =>
    simp only [createShare, hphase] at h
    cases h
    refine .move _ (by rw [hphase]; rfl) rfl (fun _ => by rw [hphase]; rfl)
      (fun _ => by rw [hphase]; rfl) fun seen hseen hsession hread => ⟨?_, ?_⟩
    · rw [Session.ReadIn, hphase] at hread
      exact hread
    · exact ⟨w, hseen, by rw [← hphase]; exact hsession, rfl⟩
  | attachmentsRead title messages rows rest =>
    cases rest with
    | cons =>
      simp only [createShare, hphase] at h
      cases h
      refine .move _ (by rw [hphase]; rfl) rfl (fun _ => by rw [hphase]; rfl)
        (fun _ => by rw [hphase]; rfl) fun seen _ _ hread => ?_
      rw [Session.ReadIn, hphase] at hread
      exact hread
    | nil =>
      simp only [createShare, hphase] at h
      split at h
      · cases h
        exact .rollback _
      · refine insertShare_cases (by rw [hphase]; rfl) (by rw [hphase]; rfl) rfl ?_ h
        intro seen hread
        rw [Session.ReadIn, hphase] at hread
        exact ⟨_, rfl, txn, session, rfl, rfl, hread⟩
  | inserted =>
    simp only [createShare, hphase] at h
    cases h
    exact .commit _
  | conversationSeen | shareLocked | written | finished =>
    simp only [createShare, hphase] at h
    cases h

theorem revokeShare_cases {userId conversation : ℕ} {token : String}
    (hrequest : session.request = .revokeShare userId conversation token)
    (h : w.revokeShare txn session userId conversation token = some w') :
    Change w txn session w' := by
  have hrevokes : session.request.creates = false := by rw [hrequest]; rfl
  cases hphase : session.phase with
  | begun =>
    simp only [revokeShare, hphase] at h
    split at h
    · cases h
      exact .rollback _
    · cases h
      exact .move _ (by rw [hphase]; rfl) rfl nofun nofun fun _ _ _ _ => trivial
  | conversationSeen =>
    simp only [revokeShare, hphase] at h
    split at h
    · cases h
      exact .rollback _
    · split at h
      · cases h
      · cases h
        exact .write _ _ (by rw [hphase]; rfl) hrevokes ⟨rfl, rfl, rfl⟩ (fun old => .inl rfl) ‹_›
  | shareLocked =>
    simp only [revokeShare, hphase] at h
    split at h
    · split at h
      · cases h
      · cases h
        exact .write _ _ (by rw [hphase]; rfl) hrevokes ⟨rfl, rfl, rfl⟩ (fun old =>
          .inr ⟨_, rfl⟩) ‹_›
    · cases h
      exact .move _ (by rw [hphase]; rfl) rfl nofun nofun fun _ _ _ _ => trivial
  | written =>
    simp only [revokeShare, hphase] at h
    cases h
    exact .commit _
  | userLocked | conversationLocked | checked | messagesRead | attachmentsRead | inserted
  | finished =>
    simp only [revokeShare, hphase] at h
    cases h

/-- Every step of a request is one of the changes. -/
theorem next_cases (h : w.next txn session = some w') : Change w txn session w' := by
  unfold next at h
  split at h
  · exact createShare_cases ‹_› h
  · exact revokeShare_cases ‹_› h

end World

/-! ### The invariant -/

section invariant

variable (seen : World → Prop)

/-- A version that a request holds: a share it has inserted, or a revocation of a committed one. -/
def Held (session : Session) (committed : Option ShareLink) (version : ShareLink) : Prop :=
  (committed = none ∧ session.phase.isInserted = true ∧
      version.conversationId = session.request.conversation ∧
      ∃ reading, version.Made seen reading) ∨
    session.request.creates = false ∧ ∃ old, committed = some old ∧ old.Revises version

/-- A share under a row, committed or not. -/
def Versions (row : Row ShareLink) (share : ShareLink) : Prop :=
  share ∈ row.committed ∨ share ∈ row.pending.map (·.2)

/-- What is true of a request in a state of the other tables. -/
structure SessionOk (w : World) (txn : ℕ) (session : Session) : Prop where
  lock : session.phase.holds = true → w.locks session.request.conversation = some txn
  checked : session.phase.hasChecked = true → ∀ id row share, w.shares.get? id = some row →
    row.committed = some share → share.conversationId = session.request.conversation →
    ¬share.Active w.clock
  now : session.now ≤ w.clock
  reads : session.ReadIn seen txn

/-- The invariant of the runs whose states are among those seen. -/
structure SharesInv (w : World) : Prop where
  held : ∀ id row txn version, w.shares.get? id = some row → row.pending = some (txn, version) →
    ∃ session, w.requests txn = some session ∧ Held seen session row.committed version
  sessions : ∀ txn session, w.requests txn = some session → SessionOk seen w txn session
  made : ∀ id row share, w.shares.get? id = some row → row.committed = some share →
    ∃ reading, share.Made seen reading
  oneActive : ∀ id id' row row' share share', w.shares.get? id = some row →
    w.shares.get? id' = some row' → row.committed = some share → row'.committed = some share' →
    share.conversationId = share'.conversationId → share.Active w.clock →
    share'.Active w.clock → id = id'
  tokens : ∀ id id' row row' share share', w.shares.get? id = some row →
    w.shares.get? id' = some row' → Versions row share → Versions row' share' →
    share.token = share'.token → id = id'
  /-- A request inserts one share. -/
  once : ∀ id id' row row' txn share share', w.shares.get? id = some row →
    w.shares.get? id' = some row' → row.committed = none → row'.committed = none →
    row.pending = some (txn, share) → row'.pending = some (txn, share') → id = id'

end invariant

variable {seen : World → Prop}

section facts

variable {old new : ShareLink} {now now' : ℕ}

theorem ShareLink.Active.mono (h : old.Active now') (hle : now ≤ now') : old.Active now :=
  ⟨h.1, fun expires hexpires => lt_of_le_of_lt hle (h.2 expires hexpires)⟩

/-- A revocation changes nothing but the moment of the revocation. -/
theorem ShareLink.Revises.frozen (h : old.Revises new) :
    new.token = old.token ∧ new.conversationId = old.conversationId ∧
      new.snapshot = old.snapshot ∧ new.createdAt = old.createdAt ∧
      new.expiresAt = old.expiresAt := by
  obtain rfl | ⟨revoked, rfl⟩ := h
  · exact ⟨rfl, rfl, rfl, rfl, rfl⟩
  · exact ⟨rfl, rfl, rfl, rfl, rfl⟩

theorem ShareLink.Revises.of_active (h : old.Revises new) (hactive : new.Active now) :
    old.Active now := by
  obtain rfl | ⟨revoked, rfl⟩ := h
  · exact hactive
  · exact absurd hactive.1 (Option.some_ne_none _)

theorem ShareLink.Revises.trans {newer : ShareLink} (h : old.Revises new)
    (h' : new.Revises newer) : old.Revises newer := by
  obtain rfl | ⟨revoked, rfl⟩ := h'
  · exact h
  · obtain rfl | ⟨earlier, rfl⟩ := h
    · exact .inr ⟨revoked, rfl⟩
    · exact .inr ⟨revoked, rfl⟩

/-- No lock, no check and no insert are lost by a request that has none. -/
theorem SessionOk.idle {w : World} {txn : ℕ} {session : Session}
    (hholds : session.phase.holds = false) (hchecked : session.phase.hasChecked = false)
    (hnow : session.now ≤ w.clock) : SessionOk seen w txn session where
  lock h := absurd (hholds.symm.trans h) (by decide)
  checked h := absurd (hchecked.symm.trans h) (by decide)
  now := hnow
  reads := by
    rw [Session.ReadIn]
    split
    · rename_i hphase
      rw [hphase] at hholds
      cases hholds
    · rename_i hphase
      rw [hphase] at hholds
      cases hholds
    · trivial

end facts

section preservation

variable {w w' : World} {txn : ℕ} {session : Session}

@[simp] theorem requests_goto (phase : Phase) :
    (w.goto txn session phase).requests =
      Function.update w.requests txn (some { session with phase }) := rfl

/-- The requests after one of them has moved on. -/
theorem of_requests_goto {phase : Phase} {other : ℕ} {session' : Session}
    (h : (w.goto txn session phase).requests other = some session') :
    other = txn ∧ session' = { session with phase } ∨
      other ≠ txn ∧ w.requests other = some session' :=
  of_update_some h

/-- A revision of a share was made of the same. -/
theorem ShareLink.Revises.made {old new : ShareLink} (h : old.Revises new) {reading : Reading}
    (hmade : old.Made seen reading) : new.Made seen reading := by
  obtain ⟨-, hconversation, hsnapshot, hcreated, -⟩ := h.frozen
  rw [Made, hsnapshot, hconversation, hcreated]
  exact hmade

/-- What a request holds before its insert are revocations, which it keeps in every phase. -/
theorem SharesInv.held_goto (hinv : SharesInv seen w) (hsession : w.requests txn = some session)
    (hpending : session.phase.isInserted = false) (phase : Phase) {id : ℕ} {row : Row ShareLink}
    {holder : ℕ} {version : ShareLink} (hget : w.shares.get? id = some row)
    (hrow : row.pending = some (holder, version)) :
    ∃ session', (w.goto txn session phase).requests holder = some session' ∧
      Held seen session' row.committed version := by
  obtain ⟨session', hsession', hheld⟩ := hinv.held id row holder version hget hrow
  by_cases hholder : holder = txn
  · subst hholder
    obtain rfl : session = session' := Option.eq_some_unique hsession hsession'
    refine ⟨{ session with phase }, Function.update_self .., ?_⟩
    obtain ⟨-, hinserted, -⟩ | hrevises := hheld
    · exact absurd (hpending.symm.trans hinserted) (by decide)
    · exact .inr hrevises
  · exact ⟨session', (Function.update_of_ne hholder ..).trans hsession', hheld⟩

/-- A request moves on without a statement on the shares. -/
theorem SharesInv.goto (hinv : SharesInv seen w) (hsession : w.requests txn = some session)
    (hpending : session.phase.isInserted = false) {phase : Phase}
    (hok : SessionOk seen w txn { session with phase }) :
    SharesInv seen (w.goto txn session phase) where
  held id row holder version hget hrow := hinv.held_goto hsession hpending phase hget hrow
  sessions other session' hsession' := by
    obtain ⟨rfl, rfl⟩ | ⟨-, hkept⟩ := of_requests_goto hsession'
    · exact ⟨hok.lock, hok.checked, hok.now, hok.reads⟩
    · have hother := hinv.sessions other session' hkept
      exact ⟨hother.lock, hother.checked, hother.now, hother.reads⟩
  made := hinv.made
  oneActive := hinv.oneActive
  tokens := hinv.tokens
  once := hinv.once

/-- A request takes the lock of its conversation. -/
theorem SharesInv.lock (hinv : SharesInv seen w) (hsession : w.requests txn = some session)
    (hpending : session.phase.isInserted = false)
    (hfree : w.locks session.request.conversation = none) (title : Option String) :
    SharesInv seen ({ w with
      locks := Function.update w.locks session.request.conversation (some txn) }.goto txn session
        (.conversationLocked title)) where
  held id row holder version hget hrow := hinv.held_goto hsession hpending _ hget hrow
  sessions other session' hsession' := by
    obtain ⟨rfl, rfl⟩ | ⟨-, hkept⟩ := of_requests_goto hsession'
    · exact ⟨fun _ => Function.update_self .., nofun, (hinv.sessions other session hsession).now,
        trivial⟩
    · have hother := hinv.sessions other session' hkept
      refine ⟨fun hholds => ?_, hother.checked, hother.now, hother.reads⟩
      have hlock := hother.lock hholds
      have hne : session'.request.conversation ≠ session.request.conversation := by
        intro heq
        rw [heq, hfree] at hlock
        cases hlock
      exact (Function.update_of_ne hne ..).trans hlock
  made := hinv.made
  oneActive := hinv.oneActive
  tokens := hinv.tokens
  once := hinv.once

/-- The check sees what is committed, and what is not active at the start of its transaction is
not active later. -/
theorem SharesInv.check (hinv : SharesInv seen w) (hsession : w.requests txn = some session)
    {title : Option String} (hphase : session.phase = .conversationLocked title)
    (hcreates : session.request.creates = true)
    (hinactive : ∀ row ∈ w.shares, ∀ share ∈ row.visible txn,
      share.conversationId = session.request.conversation → ¬share.Active session.now) :
    SharesInv seen (w.goto txn session (.checked title)) := by
  have hok := hinv.sessions txn session hsession
  have hpending : session.phase.isInserted = false := by rw [hphase]; rfl
  refine hinv.goto hsession hpending ⟨fun _ => hok.lock (by rw [hphase]; rfl), ?_, hok.now,
    trivial⟩
  intro _ id row share hget hcommitted hmine hactive
  have hvisible : row.visible txn = some share := by
    obtain ⟨version, hheld⟩ | hnot := row.held_or_not txn
    · obtain ⟨session', hsession', hheld'⟩ := hinv.held id row txn version hget hheld
      obtain rfl : session = session' := Option.eq_some_unique hsession hsession'
      obtain ⟨-, hinserted, -⟩ | ⟨hrevokes, -⟩ := hheld'
      · exact absurd (hpending.symm.trans hinserted) (by decide)
      · exact absurd (hrevokes.symm.trans hcreates) (by decide)
    · rw [Row.visible_of_not_held hnot, hcommitted]
  exact hinactive row (Table.mem_of_get? hget) share hvisible hmine (hactive.mono hok.now)

/-- A share is inserted after the check, under a new token. -/
theorem SharesInv.insert (hinv : SharesInv seen w) (hsession : w.requests txn = some session)
    {share : ShareLink} (hpending : session.phase.isInserted = false)
    (hchecks : session.phase.hasChecked = true)
    (hconversation : share.conversationId = session.request.conversation)
    (hmade : ∀ seen, session.ReadIn seen txn → ∃ reading, share.Made seen reading)
    (hfresh : ∀ row ∈ w.shares, ∀ other,
      other ∈ row.committed ∨ other ∈ row.pending.map (·.2) → other.token ≠ share.token) :
    SharesInv seen ({ w with shares := ReadCommitted.insert txn share w.shares }.goto txn session
      .inserted) := by
  have hok := hinv.sessions txn session hsession
  have hholds : session.phase.holds = true := by
    cases hphase : session.phase <;> first | rfl | (rw [hphase] at hchecks; cases hchecks)
  have hlookup : ∀ id row, (ReadCommitted.insert txn share w.shares).get? id = some row →
      id = w.shares.next ∧ row = ⟨w.shares.next, none, some (txn, share)⟩ ∨
        id ≠ w.shares.next ∧ w.shares.get? id = some row := by
    intro id row hget
    rw [get?_insert] at hget
    by_cases hid : id = w.shares.next
    · rw [if_pos hid] at hget
      exact .inl ⟨hid, (Option.some.inj hget).symm⟩
    · rw [if_neg hid] at hget
      exact .inr ⟨hid, hget⟩
  have hold : ∀ id row old, (ReadCommitted.insert txn share w.shares).get? id = some row →
      row.committed = some old → w.shares.get? id = some row := by
    intro id row old hget hcommitted
    obtain ⟨-, rfl⟩ | ⟨-, hkept⟩ := hlookup id row hget
    · cases hcommitted
    · exact hkept
  constructor
  case held =>
    intro id row holder version hget hrow
    obtain ⟨-, rfl⟩ | ⟨-, hkept⟩ := hlookup id row hget
    · obtain ⟨rfl, rfl⟩ := Prod.mk.inj (Option.some.inj hrow)
      exact ⟨_, Function.update_self .., .inl ⟨rfl, rfl, hconversation, hmade seen hok.reads⟩⟩
    · exact hinv.held_goto hsession hpending .inserted hkept hrow
  case sessions =>
    intro other session' hsession'
    obtain ⟨rfl, rfl⟩ | ⟨-, hkept⟩ := of_requests_goto hsession'
    · refine ⟨fun _ => hok.lock hholds, fun _ id row old hget hcommitted => ?_, hok.now, trivial⟩
      exact hok.checked hchecks id row old (hold id row old hget hcommitted) hcommitted
    · have hother := hinv.sessions other session' hkept
      refine ⟨hother.lock, fun hchecked id row old hget hcommitted => ?_, hother.now,
        hother.reads⟩
      exact hother.checked hchecked id row old (hold id row old hget hcommitted) hcommitted
  case made =>
    intro id row old hget hcommitted
    exact hinv.made id row old (hold id row old hget hcommitted) hcommitted
  case oneActive =>
    intro id id' row row' old old' hget hget' hcommitted hcommitted'
    exact hinv.oneActive id id' row row' old old' (hold id row old hget hcommitted)
      (hold id' row' old' hget' hcommitted') hcommitted hcommitted'
  case tokens =>
    intro id id' row row' old old' hget hget' hversion hversion' htoken
    obtain ⟨rfl, rfl⟩ | ⟨-, hkept⟩ := hlookup id row hget
    · obtain ⟨rfl, -⟩ | ⟨-, hkept'⟩ := hlookup id' row' hget'
      · rfl
      · have hne := hfresh row' (Table.mem_of_get? hkept') old' hversion'
        obtain h | h := hversion
        · cases h
        · obtain rfl : share = old := by simpa using h
          exact absurd htoken.symm hne
    · obtain ⟨rfl, rfl⟩ | ⟨-, hkept'⟩ := hlookup id' row' hget'
      · have hne := hfresh row (Table.mem_of_get? hkept) old hversion
        obtain h | h := hversion'
        · cases h
        · obtain rfl : share = old' := by simpa using h
          exact absurd htoken hne
      · exact hinv.tokens id id' row row' old old' hkept hkept' hversion hversion' htoken
  case once =>
    -- before the insert the request has inserted nothing
    have hnone : ∀ id row version, w.shares.get? id = some row → row.committed = none →
        row.pending ≠ some (txn, version) := by
      intro id row version hget hcommitted hrow
      obtain ⟨session', hsession', hheld⟩ := hinv.held id row txn version hget hrow
      obtain rfl : session = session' := Option.eq_some_unique hsession hsession'
      obtain ⟨-, hinserted, -⟩ | ⟨-, old, hsome, -⟩ := hheld
      · exact absurd (hpending.symm.trans hinserted) (by decide)
      · rw [hcommitted] at hsome
        cases hsome
    intro id id' row row' holder version version' hget hget' hcommitted hcommitted' hrow hrow'
    obtain ⟨rfl, rfl⟩ | ⟨-, hkept⟩ := hlookup id row hget
    · obtain ⟨rfl, rfl⟩ := Prod.mk.inj (Option.some.inj hrow)
      obtain ⟨rfl, -⟩ | ⟨-, hkept'⟩ := hlookup id' row' hget'
      · rfl
      · exact absurd hrow' (hnone id' row' version' hkept' hcommitted')
    · obtain ⟨rfl, rfl⟩ | ⟨-, hkept'⟩ := hlookup id' row' hget'
      · obtain ⟨rfl, rfl⟩ := Prod.mk.inj (Option.some.inj hrow')
        exact absurd hrow (hnone id row version hkept hcommitted)
      · exact hinv.once id id' row row' holder version version' hkept hkept' hcommitted hcommitted'
          hrow hrow'

/-- A revocation locks a share or writes over it. -/
theorem SharesInv.write (hinv : SharesInv seen w) (hsession : w.requests txn = some session)
    {share : ShareLink} {shares : Store ShareLink} {id : ℕ} {f : ShareLink → ShareLink}
    {phase : Phase} (hpending : session.phase.isInserted = false)
    (hrevokes : session.request.creates = false)
    (hidle : phase.isInserted = false ∧ phase.holds = false ∧ phase.hasChecked = false)
    (hrevises : ∀ old : ShareLink, old.Revises (f old))
    (h : update txn id f w.shares = some (share, shares)) :
    SharesInv seen ({ w with shares }.goto txn session phase) := by
  obtain ⟨row, hget, -, hvisible, rfl⟩ := update_cases h
  -- the version that is written revises the committed one
  have hwritten : ∃ old, row.committed = some old ∧ old.Revises share := by
    obtain ⟨version, hheld⟩ | hnot := row.held_or_not txn
    · obtain ⟨session', hsession', hheld'⟩ := hinv.held id row txn version hget hheld
      obtain rfl : session = session' := Option.eq_some_unique hsession hsession'
      obtain rfl : version = share :=
        Option.eq_some_unique (Row.visible_of_pending hheld) hvisible
      obtain ⟨-, hinserted, -⟩ | ⟨-, hold⟩ := hheld'
      · exact absurd (hpending.symm.trans hinserted) (by decide)
      · exact hold
    · rw [Row.visible_of_not_held hnot] at hvisible
      exact ⟨share, hvisible, .inl rfl⟩
  have hlookup : ∀ id' row', Table.get? (w.shares.set (row.write txn (f share))) id' = some row' →
      id' = id ∧ row' = row.write txn (f share) ∨ id' ≠ id ∧ w.shares.get? id' = some row' := by
    intro id' row' hget'
    rw [get?_set_write hget] at hget'
    by_cases hid : id' = id
    · rw [if_pos hid] at hget'
      exact .inl ⟨hid, (Option.some.inj hget').symm⟩
    · rw [if_neg hid] at hget'
      exact .inr ⟨hid, hget'⟩
  have hold : ∀ id' row' old, Table.get? (w.shares.set (row.write txn (f share))) id' = some row' →
      row'.committed = some old →
      ∃ row'', w.shares.get? id' = some row'' ∧ row''.committed = some old := by
    intro id' row' old hget' hcommitted
    obtain ⟨rfl, rfl⟩ | ⟨-, hkept⟩ := hlookup id' row' hget'
    · exact ⟨row, hget, hcommitted⟩
    · exact ⟨row', hkept, hcommitted⟩
  constructor
  case held =>
    intro id' row' holder version hget' hrow
    obtain ⟨-, rfl⟩ | ⟨-, hkept⟩ := hlookup id' row' hget'
    · obtain ⟨rfl, rfl⟩ := Prod.mk.inj (Option.some.inj hrow)
      obtain ⟨old, hcommitted, hrevised⟩ := hwritten
      exact ⟨_, Function.update_self .., .inr ⟨hrevokes, old, hcommitted,
        hrevised.trans (hrevises share)⟩⟩
    · exact hinv.held_goto hsession hpending phase hkept hrow
  case sessions =>
    intro other session' hsession'
    obtain ⟨rfl, rfl⟩ | ⟨-, hkept⟩ := of_requests_goto hsession'
    · exact .idle hidle.2.1 hidle.2.2 (hinv.sessions other session hsession).now
    · have hother := hinv.sessions other session' hkept
      refine ⟨hother.lock, fun hchecked id' row' old hget' hcommitted => ?_, hother.now,
        hother.reads⟩
      obtain ⟨row'', hget'', hcommitted'⟩ := hold id' row' old hget' hcommitted
      exact hother.checked hchecked id' row'' old hget'' hcommitted'
  case made =>
    intro id' row' old hget' hcommitted
    obtain ⟨row'', hget'', hcommitted'⟩ := hold id' row' old hget' hcommitted
    exact hinv.made id' row'' old hget'' hcommitted'
  case oneActive =>
    intro id₁ id₂ row₁ row₂ old₁ old₂ hget₁ hget₂ hcommitted₁ hcommitted₂
    obtain ⟨row₁', hget₁', hcommitted₁'⟩ := hold id₁ row₁ old₁ hget₁ hcommitted₁
    obtain ⟨row₂', hget₂', hcommitted₂'⟩ := hold id₂ row₂ old₂ hget₂ hcommitted₂
    exact hinv.oneActive id₁ id₂ row₁' row₂' old₁ old₂ hget₁' hget₂' hcommitted₁' hcommitted₂'
  case tokens =>
    -- a version after the write has the token of one before it
    have htoken : ∀ id' row' version,
        Table.get? (w.shares.set (row.write txn (f share))) id' = some row' →
        Versions row' version → ∃ row'' version', w.shares.get? id' = some row'' ∧
          Versions row'' version' ∧ version'.token = version.token := by
      intro id' row' version hget' hversion
      obtain ⟨rfl, rfl⟩ | ⟨-, hkept⟩ := hlookup id' row' hget'
      · obtain hcommitted | hpending' := hversion
        · exact ⟨row, version, hget, .inl hcommitted, rfl⟩
        · obtain rfl : f share = version := by simpa using hpending'
          obtain ⟨old, hcommitted, hrevised⟩ := hwritten
          exact ⟨row, old, hget, .inl hcommitted, ((hrevised.trans (hrevises share)).frozen.1).symm⟩
      · exact ⟨row', version, hkept, hversion, rfl⟩
    intro id₁ id₂ row₁ row₂ v₁ v₂ hget₁ hget₂ hversion₁ hversion₂ heq
    obtain ⟨row₁', v₁', hget₁', hversion₁', htoken₁⟩ := htoken id₁ row₁ v₁ hget₁ hversion₁
    obtain ⟨row₂', v₂', hget₂', hversion₂', htoken₂⟩ := htoken id₂ row₂ v₂ hget₂ hversion₂
    exact hinv.tokens id₁ id₂ row₁' row₂' v₁' v₂' hget₁' hget₂' hversion₁' hversion₂'
      (htoken₁.trans (heq.trans htoken₂.symm))
  case once =>
    have hother : ∀ id' row', Table.get? (w.shares.set (row.write txn (f share))) id' = some row' →
        row'.committed = none → w.shares.get? id' = some row' := by
      intro id' row' hget' hcommitted
      obtain ⟨-, rfl⟩ | ⟨-, hkept⟩ := hlookup id' row' hget'
      · obtain ⟨old, hsome, -⟩ := hwritten
        exact absurd (hsome.symm.trans hcommitted) (Option.some_ne_none old)
      · exact hkept
    intro id₁ id₂ row₁ row₂ holder v₁ v₂ hget₁ hget₂ hcommitted₁ hcommitted₂
    exact hinv.once id₁ id₂ row₁ row₂ holder v₁ v₂ (hother id₁ row₁ hget₁ hcommitted₁)
      (hother id₂ row₂ hget₂ hcommitted₂) hcommitted₁ hcommitted₂

/-- The end of a transaction: what the other requests hold and rely on is still there. -/
theorem SharesInv.finish (hinv : SharesInv seen w) {shares : Store ShareLink} {outcome : Outcome}
    (ended : Row ShareLink → Row ShareLink)
    (hget : ∀ id, shares.get? id = (w.shares.get? id).map ended)
    (hkept : ∀ row p, (ended row).pending = some p → ended row = row ∧ p.1 ≠ txn)
    (hnow : session.now ≤ w.clock)
    (hversion : ∀ id row share, w.shares.get? id = some row → (ended row).committed = some share →
      Versions row share)
    (hmade : ∀ id row share, w.shares.get? id = some row → (ended row).committed = some share →
      ∃ reading, share.Made seen reading)
    (hchecked : ∀ other session' id row share, other ≠ txn → w.requests other = some session' →
      session'.phase.hasChecked = true → w.shares.get? id = some row →
      (ended row).committed = some share →
      share.conversationId = session'.request.conversation → ¬share.Active w.clock)
    (honeActive : ∀ id id' row row' share share', w.shares.get? id = some row →
      w.shares.get? id' = some row' → (ended row).committed = some share →
      (ended row').committed = some share' → share.conversationId = share'.conversationId →
      share.Active w.clock → share'.Active w.clock → id = id') :
    SharesInv seen (w.finish txn session outcome shares) where
  held id row holder version hrow hpending := by
    obtain ⟨old, hold, rfl⟩ := Option.map_eq_some_iff.mp ((hget id).symm.trans hrow)
    obtain ⟨hsame, hother⟩ := hkept old _ hpending
    rw [hsame] at hpending ⊢
    obtain ⟨session', hsession', hheld⟩ := hinv.held id old holder version hold hpending
    exact ⟨session', (Function.update_of_ne hother ..).trans hsession', hheld⟩
  sessions other session' hsession' := by
    obtain ⟨-, rfl⟩ | ⟨hother, hrest⟩ := of_requests_goto hsession'
    · exact .idle rfl rfl hnow
    · have hok := hinv.sessions other session' hrest
      refine ⟨fun hholds => ?_, fun hchecks id row share hrow hcommitted hmine => ?_, hok.now,
        hok.reads⟩
      · have hlock := hok.lock hholds
        change (if w.locks session'.request.conversation = some txn then none
          else w.locks session'.request.conversation) = some other
        rw [hlock, if_neg fun heq => hother (Option.some.inj heq)]
      · obtain ⟨old, hold, rfl⟩ := Option.map_eq_some_iff.mp ((hget id).symm.trans hrow)
        exact hchecked other session' id old share hother hrest hchecks hold hcommitted hmine
  made id row share hrow hcommitted := by
    obtain ⟨old, hold, rfl⟩ := Option.map_eq_some_iff.mp ((hget id).symm.trans hrow)
    exact hmade id old share hold hcommitted
  oneActive id id' row row' share share' hrow hrow' hcommitted hcommitted' := by
    obtain ⟨old, hold, rfl⟩ := Option.map_eq_some_iff.mp ((hget id).symm.trans hrow)
    obtain ⟨old', hold', rfl⟩ := Option.map_eq_some_iff.mp ((hget id').symm.trans hrow')
    exact honeActive id id' old old' share share' hold hold' hcommitted hcommitted'
  tokens id id' row row' share share' hrow hrow' hversions hversions' := by
    -- what ends a transaction makes no version, so every token is an old one's
    have hbefore : ∀ id row share, shares.get? id = some row → Versions row share →
        ∃ old, w.shares.get? id = some old ∧ Versions old share := by
      intro id row share hrow hversions
      obtain ⟨old, hold, rfl⟩ := Option.map_eq_some_iff.mp ((hget id).symm.trans hrow)
      obtain hcommitted | hpending := hversions
      · exact ⟨old, hold, hversion id old share hold hcommitted⟩
      · obtain ⟨p, hp, rfl⟩ := Option.map_eq_some_iff.mp hpending
        rw [(hkept old p hp).1] at hp
        exact ⟨old, hold, .inr (Option.map_eq_some_iff.mpr ⟨p, hp, rfl⟩)⟩
    obtain ⟨old, hold, hold_version⟩ := hbefore id row share hrow hversions
    obtain ⟨old', hold', hold_version'⟩ := hbefore id' row' share' hrow' hversions'
    exact hinv.tokens id id' old old' share share' hold hold' hold_version hold_version'
  once id id' row row' holder share share' hrow hrow' hcommitted hcommitted' hpending
    hpending' := by
    obtain ⟨old, hold, rfl⟩ := Option.map_eq_some_iff.mp ((hget id).symm.trans hrow)
    obtain ⟨old', hold', rfl⟩ := Option.map_eq_some_iff.mp ((hget id').symm.trans hrow')
    rw [(hkept old _ hpending).1] at hcommitted hpending
    rw [(hkept old' _ hpending').1] at hcommitted' hpending'
    exact hinv.once id id' old old' holder share share' hold hold' hcommitted hcommitted' hpending
      hpending'

theorem SharesInv.rollback (hinv : SharesInv seen w) (hsession : w.requests txn = some session)
    (outcome : Outcome) : SharesInv seen (w.rollback txn session outcome) := by
  refine hinv.finish (Row.rollback txn) (fun _ => get?_rollback)
    (fun _ _ => Row.of_pending_rollback) (hinv.sessions txn session hsession).now ?_ ?_ ?_ ?_ <;>
    simp only [Row.committed_rollback]
  · exact fun id row share _ hcommitted => .inl hcommitted
  · exact hinv.made
  · exact fun other session' id row share _ hsession' hchecks hget hcommitted =>
      (hinv.sessions other session' hsession').checked hchecks id row share hget hcommitted
  · exact hinv.oneActive

/-- The commit of a request: a new share is the only active one of its conversation, and a
revocation makes none active. -/
theorem SharesInv.commit (hinv : SharesInv seen w) (hsession : w.requests txn = some session)
    (outcome : Outcome) : SharesInv seen (w.commit txn session outcome) := by
  have hok := hinv.sessions txn session hsession
  have hchecks : session.phase.isInserted = true →
      session.phase.holds = true ∧ session.phase.hasChecked = true := by
    intro hinserted
    cases hphase : session.phase <;>
      first | exact ⟨rfl, rfl⟩ | (rw [hphase] at hinserted; cases hinserted)
  -- a version after the commit is the new share, or a revision of a committed one
  have hcases : ∀ id row share, w.shares.get? id = some row →
      (row.commit txn).committed = some share →
      Versions row share ∧ (∃ reading, share.Made seen reading) ∧
        ((session.phase.isInserted = true ∧ row.committed = none ∧
          share.conversationId = session.request.conversation ∧
          row.pending = some (txn, share)) ∨
        ∃ old, row.committed = some old ∧ old.Revises share) := by
    intro id row share hget hcommitted
    obtain ⟨version, hheld⟩ | hnot := row.held_or_not txn
    · rw [Row.commit_of_pending hheld] at hcommitted
      obtain rfl : version = share := Option.some.inj hcommitted
      have hversion : Versions row version := .inr (by rw [hheld]; rfl)
      obtain ⟨session', hsession', hheld'⟩ := hinv.held id row txn version hget hheld
      obtain rfl : session = session' := Option.eq_some_unique hsession hsession'
      obtain ⟨hnone, hinserted, hconversation, hmade⟩ | ⟨-, old, hold, hrevises⟩ := hheld'
      · exact ⟨hversion, hmade, .inl ⟨hinserted, hnone, hconversation, hheld⟩⟩
      · obtain ⟨reading, hreading⟩ := hinv.made id row old hget hold
        exact ⟨hversion, ⟨reading, hrevises.made hreading⟩, .inr ⟨old, hold, hrevises⟩⟩
    · rw [Row.commit_of_not_held hnot] at hcommitted
      exact ⟨.inl hcommitted, hinv.made id row share hget hcommitted,
        .inr ⟨share, hcommitted, .inl rfl⟩⟩
  refine hinv.finish (Row.commit txn) (fun _ => get?_commit) (fun _ _ => Row.of_pending_commit)
    hok.now ?_ ?_ ?_ ?_
  · exact fun id row share hget hcommitted => (hcases id row share hget hcommitted).1
  · exact fun id row share hget hcommitted => (hcases id row share hget hcommitted).2.1
  · intro other session' id row share hother hsession' hchecked hget hcommitted hmine
    have hok' := hinv.sessions other session' hsession'
    obtain ⟨-, -, hnew | ⟨old, hold, hrevises⟩⟩ := hcases id row share hget hcommitted
    · -- the conversation cannot be held by both
      obtain ⟨hinserted, -, hconversation, -⟩ := hnew
      have hmineHeld := hok.lock (hchecks hinserted).1
      have htheirs := hok'.lock (by
        cases hphase : session'.phase <;> first | rfl | (rw [hphase] at hchecked; cases hchecked))
      rw [← hmine, hconversation, hmineHeld] at htheirs
      exact absurd (Option.some.inj htheirs).symm hother
    · intro hactive
      exact hok'.checked hchecked id row old hget hold (hrevises.frozen.2.1.symm.trans hmine)
        (hrevises.of_active hactive)
  · intro id id' row row' share share' hget hget' hcommitted hcommitted' hsame hactive hactive'
    obtain ⟨hversion, -, hnew | ⟨old, hold, hrevises⟩⟩ := hcases id row share hget hcommitted
    · obtain ⟨hinserted, hnone, hconversation, hpending⟩ := hnew
      obtain ⟨hversion', -, hnew' | ⟨old', hold', hrevises'⟩⟩ :=
        hcases id' row' share' hget' hcommitted'
      · obtain ⟨-, hnone', -, hpending'⟩ := hnew'
        exact hinv.once id id' row row' txn share share' hget hget' hnone hnone' hpending hpending'
      · have hinactive := hok.checked (hchecks hinserted).2 id' row' old' hget' hold'
          (hrevises'.frozen.2.1.symm.trans (hsame.symm.trans hconversation))
        exact absurd (hrevises'.of_active hactive') hinactive
    · obtain ⟨hversion', -, hnew' | ⟨old', hold', hrevises'⟩⟩ :=
        hcases id' row' share' hget' hcommitted'
      · obtain ⟨hinserted, -, hconversation, -⟩ := hnew'
        have hinactive := hok.checked (hchecks hinserted).2 id row old hget hold
          (hrevises.frozen.2.1.symm.trans (hsame.trans hconversation))
        exact absurd (hrevises.of_active hactive) hinactive
      · exact hinv.oneActive id id' row row' old old' hget hget' hold hold'
          (hrevises.frozen.2.1.symm.trans (hsame.trans hrevises'.frozen.2.1))
          (hrevises.of_active hactive) (hrevises'.of_active hactive')

/-- Every change of a request keeps the invariant. -/
theorem SharesInv.change (hinv : SharesInv seen w) (hseen : seen w)
    (hsession : w.requests txn = some session) (h : World.Change w txn session w') :
    SharesInv seen w' := by
  have hok := hinv.sessions txn session hsession
  cases h with
  | move phase hpending hinserted hholds hchecks hreads =>
    exact hinv.goto hsession hpending ⟨fun h => hok.lock (hholds h),
      fun h => hok.checked (hchecks h), hok.now, hreads seen hseen hsession hok.reads⟩
  | lock title hpending hfree => exact hinv.lock hsession hpending hfree title
  | check title hphase hcreates hinactive => exact hinv.check hsession hphase hcreates hinactive
  | insert share hpending hchecks hconversation hmade hfresh =>
    exact hinv.insert hsession hpending hchecks hconversation hmade hfresh
  | write f phase hpending hrevokes hidle hrevises hwritten =>
    exact hinv.write hsession hpending hrevokes hidle hrevises hwritten
  | commit outcome => exact hinv.commit hsession outcome
  | rollback outcome => exact hinv.rollback hsession outcome

/-- The invariant is kept by every step. -/
theorem SharesInv.step {action : Action} (hinv : SharesInv seen w) (hseen : seen w)
    (h : Shares.step w action = some w') : SharesInv seen w' := by
  cases action with
  | start txn =>
    simp only [Shares.step] at h
    cases hsession : w.requests txn with
    | some => simp [hsession] at h
    | none =>
      simp only [hsession] at h
      cases h
      refine ⟨?_, ?_, hinv.made, hinv.oneActive, hinv.tokens, hinv.once⟩
      · intro id row holder version hget hrow
        obtain ⟨session', hsession', hheld⟩ := hinv.held id row holder version hget hrow
        have hother : holder ≠ txn := by
          rintro rfl
          rw [hsession] at hsession'
          cases hsession'
        exact ⟨session', (Function.update_of_ne hother ..).trans hsession', hheld⟩
      · intro other session' hsession'
        obtain ⟨-, rfl⟩ | ⟨-, hkept⟩ := of_requests_goto hsession'
        · exact .idle rfl rfl (le_refl _)
        · have hok := hinv.sessions other session' hkept
          exact ⟨hok.lock, hok.checked, hok.now, hok.reads⟩
  | advance txn =>
    simp only [Shares.step] at h
    cases hsession : w.requests txn with
    | none => simp [hsession] at h
    | some =>
      simp only [hsession] at h
      exact hinv.change hseen hsession (World.next_cases h)
  | abort txn =>
    simp only [Shares.step] at h
    cases hsession : w.requests txn with
    | none => simp [hsession] at h
    | some =>
      simp only [hsession] at h
      split at h
      · cases h
      · cases h
        exact hinv.rollback hsession .aborted
  | tick now =>
    obtain ⟨hle, heq⟩ := Option.ite_none_right_eq_some.mp h
    cases heq
    refine ⟨hinv.held, ?_, hinv.made, ?_, hinv.tokens, hinv.once⟩
    · intro txn session hsession
      have hok := hinv.sessions txn session hsession
      refine ⟨hok.lock, fun hchecks id row share hget hcommitted hmine hactive => ?_,
        le_trans hok.now hle, hok.reads⟩
      -- a link active now was active at the earlier check
      exact hok.checked hchecks id row share hget hcommitted hmine (hactive.mono hle)
    · intro id id' row row' share share' hget hget' hcommitted hcommitted' hsame hactive hactive'
      exact hinv.oneActive id id' row row' share share' hget hget' hcommitted hcommitted' hsame
        (hactive.mono hle) (hactive'.mono hle)
  | rewrite =>
    cases h
    refine ⟨hinv.held, fun txn session hsession => ?_, hinv.made, hinv.oneActive, hinv.tokens,
      hinv.once⟩
    have hok := hinv.sessions txn session hsession
    exact ⟨hok.lock, hok.checked, hok.now, hok.reads⟩

end preservation

/-! ### What stays as it was -/

/-- A share is committed under an id. -/
def World.Committed (w : World) (id : ℕ) (share : ShareLink) : Prop :=
  ∃ row, w.shares.get? id = some row ∧ row.committed = some share

section frozen

variable {w w' : World} {txn : ℕ} {session : Session}

/-- A committed share is only ever revised. -/
theorem SharesInv.revises_of_change (hinv : SharesInv seen w)
    (h : World.Change w txn session w') {id : ℕ} {share : ShareLink}
    (hcommitted : w.Committed id share) : ∃ share', w'.Committed id share' ∧
    share.Revises share' := by
  obtain ⟨row, hget, hshare⟩ := hcommitted
  cases h with
  | move | lock | check => exact ⟨share, ⟨row, hget, hshare⟩, .inl rfl⟩
  | insert =>
    refine ⟨share, ⟨row, ?_, hshare⟩, .inl rfl⟩
    have hne : id ≠ w.shares.next := by
      rintro rfl
      rw [Table.get?_of_next_le (le_refl _)] at hget
      cases hget
    exact get?_insert.trans ((if_neg hne).trans hget)
  | @write _ shares id' _ _ _ _ _ _ hwritten =>
    obtain ⟨row', hget', -, -, rfl⟩ := update_cases hwritten
    by_cases hid : id = id'
    · subst hid
      obtain rfl : row = row' := Option.eq_some_unique hget hget'
      exact ⟨share, ⟨_, (get?_set_write hget).trans (if_pos rfl), hshare⟩, .inl rfl⟩
    · exact ⟨share, ⟨row, (get?_set_write hget').trans ((if_neg hid).trans hget), hshare⟩, .inl rfl⟩
  | rollback =>
    refine ⟨share, ⟨row.rollback txn, ?_, Row.committed_rollback.trans hshare⟩, .inl rfl⟩
    exact get?_rollback.trans (by rw [hget]; rfl)
  | commit =>
    have hrow : (ReadCommitted.commit txn w.shares).get? id = some (row.commit txn) :=
      get?_commit.trans (by rw [hget]; rfl)
    obtain ⟨version, hheld⟩ | hnot := row.held_or_not txn
    · obtain ⟨session', -, hheld'⟩ := hinv.held id row txn version hget hheld
      obtain ⟨hnone, -⟩ | ⟨-, old, hold, hrevises⟩ := hheld'
      · rw [hshare] at hnone
        cases hnone
      · obtain rfl : old = share := Option.eq_some_unique hold hshare
        exact ⟨version, ⟨_, hrow, by rw [Row.commit_of_pending hheld]⟩, hrevises⟩
    · exact ⟨share, ⟨_, hrow, by rw [Row.commit_of_not_held hnot]; exact hshare⟩, .inl rfl⟩

theorem SharesInv.revises_of_step (hinv : SharesInv seen w) {action : Action}
    (h : Shares.step w action = some w') {id : ℕ} {share : ShareLink}
    (hcommitted : w.Committed id share) : ∃ share', w'.Committed id share' ∧
    share.Revises share' := by
  cases action with
  | start =>
    simp only [Shares.step] at h
    split at h
    · cases h
    · cases h
      exact ⟨share, hcommitted, .inl rfl⟩
  | advance =>
    simp only [Shares.step] at h
    split at h
    · cases h
    · exact hinv.revises_of_change (World.next_cases h) hcommitted
  | abort =>
    simp only [Shares.step] at h
    split at h
    · cases h
    · split at h
      · cases h
      · cases h
        exact hinv.revises_of_change (.rollback .aborted) hcommitted
  | tick =>
    obtain ⟨-, heq⟩ := Option.ite_none_right_eq_some.mp h
    cases heq
    exact ⟨share, hcommitted, .inl rfl⟩
  | rewrite =>
    cases h
    exact ⟨share, hcommitted, .inl rfl⟩

theorem SharesInv.revises_of_run {actions : List Action} (hinv : SharesInv (fun _ => True) w)
    (hrun : run Shares.step w actions = some w') {id : ℕ} {share : ShareLink}
    (hcommitted : w.Committed id share) : ∃ share', w'.Committed id share' ∧
    share.Revises share' := by
  let Inv (w : World) : Prop :=
    SharesInv (fun _ => True) w ∧ ∃ share', w.Committed id share' ∧ share.Revises share'
  have hstep : ∀ w action w', Inv w → Shares.step w action = some w' → Inv w' := by
    rintro w action w' ⟨hinv, share', hcommitted', hrevises⟩ h
    obtain ⟨share'', hcommitted'', hrevises'⟩ := hinv.revises_of_step h hcommitted'
    exact ⟨hinv.step trivial h, share'', hcommitted'', hrevises.trans hrevises'⟩
  have hlast : Inv w' := run_invariant hstep ⟨hinv, share, hcommitted, .inl rfl⟩ hrun
  exact hlast.2

/-- A step of a request; the other actions leave the shares alone. -/
def Action.advances : Action → Bool
  | .advance _ | .abort _ => true
  | .start .. | .tick _ | .rewrite _ => false

theorem shares_of_run {actions : List Action} (hidle : ∀ action ∈ actions, action.advances = false)
    (hrun : run Shares.step w actions = some w') : w'.shares = w.shares := by
  let Inv (m : World) : Prop := m.shares = w.shares
  have hstep : ∀ m action m', Inv m → action.advances = false → Shares.step m action = some m' →
      Inv m' := by
    intro m action m' hm hidle h
    cases action with
    | advance | abort => cases hidle
    | start =>
      simp only [Shares.step] at h
      split at h
      · cases h
      · cases h
        exact hm
    | tick =>
      obtain ⟨-, heq⟩ := Option.ite_none_right_eq_some.mp h
      cases heq
      exact hm
    | rewrite =>
      cases h
      exact hm
  have hlast : Inv w' := run_invariant_along hstep rfl (along_of_forall hidle) hrun
  exact hlast

/-- The share that a token finds. -/
theorem SharesInv.find_token (hinv : SharesInv seen w) {token : String} {share : ShareLink} :
    (w.shares.rows.filterMap (·.committed)).find? (·.token = token) = some share ↔
      (∃ id, w.Committed id share) ∧ share.token = token := by
  have hmem : ∀ share, share ∈ w.shares.rows.filterMap (·.committed) ↔
      ∃ id, w.Committed id share := by
    intro share
    rw [List.mem_filterMap]
    constructor
    · rintro ⟨row, hrow, hshare⟩
      exact ⟨row.id, row, Table.get?_key hrow, hshare⟩
    · rintro ⟨id, row, hget, hshare⟩
      exact ⟨row, Table.mem_of_get? hget, hshare⟩
  constructor
  · intro hfind
    exact ⟨(hmem share).mp (List.mem_of_find?_eq_some hfind), by simpa using List.find?_some hfind⟩
  · rintro ⟨hcommitted, htoken⟩
    cases hfind : (w.shares.rows.filterMap (·.committed)).find? (·.token = token) with
    | none =>
      have hnot := List.find?_eq_none.mp hfind share ((hmem share).mpr hcommitted)
      exact absurd htoken (by simpa using hnot)
    | some other =>
      obtain ⟨id, row, hget, hshare⟩ := hcommitted
      obtain ⟨id', row', hget', hother⟩ := (hmem other).mp (List.mem_of_find?_eq_some hfind)
      have htoken' : other.token = token := by simpa using List.find?_some hfind
      obtain rfl := hinv.tokens id id' row row' share other hget hget' (.inl hshare) (.inl hother)
        (htoken.trans htoken'.symm)
      obtain rfl : row = row' := Option.eq_some_unique hget hget'
      rw [Option.eq_some_unique hother hshare]

/-- What the public reads depends on the frozen columns of the share alone. -/
theorem SharesInv.getPublicShare_eq_some (hinv : SharesInv seen w) {α : Type}
    {modelValidate : Json → Option α} {token : String} {now : ℕ} {response : PublicShareResponse α}
    (h : getPublicShare modelValidate token now w.shares = some response) :
    ∃ id share, w.Committed id share ∧ share.token = token ∧
      response = {
        title := Dict.get? share.snapshot "title"
        messages := (((Dict.get? share.snapshot "messages").bind Json.arr?).getD []).mapM
          modelValidate
        createdAt := share.createdAt } := by
  unfold getPublicShare at h
  cases hfind : (w.shares.rows.filterMap (·.committed)).find? (·.token = token) with
  | none => simp [hfind] at h
  | some share =>
    obtain ⟨⟨id, hcommitted⟩, htoken⟩ := hinv.find_token.mp hfind
    simp only [hfind] at h
    obtain ⟨-, heq⟩ := Option.ite_none_right_eq_some.mp h
    exact ⟨id, share, hcommitted, htoken, (Option.some.inj heq).symm⟩

/-- A ref resolves in the snapshot of the active share of the token. -/
theorem SharesInv.resolve_eq_ok (hinv : SharesInv seen w) {token ref : String} {now owner : ℕ}
    {file : Uuid} (h : resolveShareAttachment w token ref now = .ok (file, owner)) :
    ∃ id share, w.Committed id share ∧ share.token = token ∧ share.Active now ∧
      snapshotAttachmentFileId share.snapshot ref = some (some file) := by
  unfold resolveShareAttachment at h
  cases hfind : (w.shares.rows.filterMap (·.committed)).find? (·.token = token) with
  | none => simp [hfind] at h
  | some share =>
    obtain ⟨⟨id, hcommitted⟩, htoken⟩ := hinv.find_token.mp hfind
    simp only [hfind] at h
    split at h
    · cases h
    · by_cases hactive : share.Active now
      · rw [if_pos hactive] at h
        refine ⟨id, share, hcommitted, htoken, hactive, ?_⟩
        split at h
        · cases h
        · cases h
        · obtain ⟨rfl, -⟩ := Prod.mk.inj (Except.ok.inj h)
          assumption
      · rw [if_neg hactive] at h
        cases h

end frozen

/-! ### Every run -/

/-- No share and no request. -/
structure World.Fresh (w : World) : Prop where
  shares : w.shares = Table.empty
  requests : ∀ txn, w.requests txn = none

theorem World.Fresh.inv {w : World} (hfresh : w.Fresh) : SharesInv seen w := by
  have hnone : ∀ id row, w.shares.get? id ≠ some row := by
    intro id row hget
    have hmem := Table.mem_of_get? hget
    rw [hfresh.shares] at hmem
    exact Table.not_mem_empty hmem
  constructor
  case sessions =>
    intro txn session hsession
    rw [hfresh.requests] at hsession
    cases hsession
  case held => exact fun id row _ _ hget => absurd hget (hnone id row)
  case made => exact fun id row _ hget => absurd hget (hnone id row)
  case oneActive => exact fun id _ row _ _ _ hget => absurd hget (hnone id row)
  case tokens => exact fun id _ row _ _ _ hget => absurd hget (hnone id row)
  case once => exact fun id _ row _ _ _ _ hget => absurd hget (hnone id row)

/-- **Shares expose only their snapshots.** Cut any run of creates, revocations and changes of the
live tables at any point. At its end at most one share of a conversation is active, every share has
a snapshot that exposes only what the request that created it read of its conversation, and every
file that a ref resolves to is one of these. A share that there was at the cut still has its
snapshot, what its readers see is what they saw, and they see it as long as no request goes on. -/
theorem sharing_safety {start w₁ w : World} {before after : List Action} (hfresh : start.Fresh)
    (hbefore : run step start before = some w₁) (hafter : run step w₁ after = some w) :
    (∀ id id' share share', w.Committed id share → w.Committed id' share' →
      share.conversationId = share'.conversationId → share.Active w.clock →
      share'.Active w.clock → id = id') ∧
    (∀ id share, w.Committed id share → ∃ reading,
      share.Made (Visited step start (before ++ after)) reading ∧
        ExposesOnly reading share.snapshot) ∧
    (∀ token ref now file owner, resolveShareAttachment w token ref now = .ok (file, owner) →
      ∃ id share, w.Committed id share ∧ share.token = token ∧ share.Active now ∧
        snapshotAttachmentFileId share.snapshot ref = some (some file)) ∧
    (∀ id share, w₁.Committed id share → ∃ share', w.Committed id share' ∧
      share'.token = share.token ∧ share'.snapshot = share.snapshot) ∧
    (∀ (α : Type) (modelValidate : Json → Option α) (token : String) (now now' : ℕ)
      (response response' : PublicShareResponse α),
      getPublicShare modelValidate token now w₁.shares = some response →
      getPublicShare modelValidate token now' w.shares = some response' → response' = response) ∧
    ((∀ action ∈ after, action.advances = false) →
      ∀ (α : Type) (modelValidate : Json → Option α) (token : String) (now : ℕ),
        getPublicShare modelValidate token now w.shares =
          getPublicShare modelValidate token now w₁.shares) := by
  have hinv₁ : SharesInv (fun _ => True) w₁ :=
    run_invariant (fun _ _ _ hinv h => hinv.step trivial h) hfresh.inv hbefore
  have hinv : SharesInv (Visited step start (before ++ after)) w :=
    run_invariant_throughout (fun _ _ _ hinv hseen _ h => hinv.step hseen h) hfresh.inv
      throughout_visited (run_append.mpr ⟨w₁, hbefore, hafter⟩)
  refine ⟨?_, ?_, ?_, ?_, ?_, ?_⟩
  · rintro id id' share share' ⟨row, hget, hshare⟩ ⟨row', hget', hshare'⟩
    exact hinv.oneActive id id' row row' share share' hget hget' hshare hshare'
  · rintro id share ⟨row, hget, hshare⟩
    obtain ⟨reading, hreading⟩ := hinv.made id row share hget hshare
    exact ⟨reading, hreading, hreading.1 ▸ reading.exposesOnly⟩
  · exact fun token ref now file owner hresolve => hinv.resolve_eq_ok hresolve
  · intro id share hcommitted
    obtain ⟨share', hcommitted', hrevises⟩ := hinv₁.revises_of_run hafter hcommitted
    exact ⟨share', hcommitted', hrevises.frozen.1, hrevises.frozen.2.2.1⟩
  · intro α modelValidate token now now' response response' hearlier hlater
    obtain ⟨id, share, hcommitted, htoken, rfl⟩ := hinv₁.getPublicShare_eq_some hearlier
    obtain ⟨id', share', hcommitted', htoken', rfl⟩ := hinv.getPublicShare_eq_some hlater
    obtain ⟨later, hkept, hrevises⟩ := hinv₁.revises_of_run hafter hcommitted
    -- the token still finds the same share
    obtain rfl : later = share' := by
      have hlater := hinv.find_token.mpr ⟨⟨id, hkept⟩, hrevises.frozen.1.trans htoken⟩
      have hfound := hinv.find_token.mpr ⟨⟨id', hcommitted'⟩, htoken'⟩
      exact Option.eq_some_unique hlater hfound
    obtain ⟨-, -, hsnapshot, hcreated, -⟩ := hrevises.frozen
    rw [hsnapshot, hcreated]
  · intro hidle α modelValidate token now
    rw [shares_of_run hidle hafter]

/-- A question with a picture, and an answer. -/
def picnic : LiveTables where
  activeUsers := [7]
  conversations := [⟨1, 7, some "Picnic", none⟩]
  messages :=
    [⟨10, 1, 1, .user, "What is this?", none, none, none, none, none, none, none, none⟩,
      ⟨11, 1, 2, .assistant, "A sandwich.", none, none, none, none, none, none, none, none⟩]
  attachments := [⟨10, some 3, 0, "a.png", "image/png", 9, [], .upload⟩]
  files := [⟨3, ⟨77⟩, some .image, none⟩]
  previews := []
  messageIds := by decide
  attachmentPositions := by decide

/-- The picnic without its messages. -/
def emptied : LiveTables :=
  { picnic with
    messages := [], attachments := [], files := [], messageIds := by decide
    attachmentPositions := by decide }

def sharingStart : World := ⟨picnic, Table.empty, fun _ => none, 0, fun _ => none⟩

theorem fresh_sharingStart : sharingStart.Fresh := ⟨rfl, fun _ => rfl⟩

/-- The picnic is shared. -/
def picnicShared : List Action :=
  .start 0 (.createShare 7 1 none true "t") :: List.replicate 8 (.advance 0)

/-- The picture of the picnic is still found under its ref after the messages are gone. -/
theorem sharing_safety_picnic :
    ∃ w₁ w, run step sharingStart picnicShared = some w₁ ∧
      run step w₁ [.rewrite emptied, .tick 5] = some w ∧
      resolveShareAttachment w "t" "0-0" 5 = .ok (⟨77⟩, 7) ∧
      ∀ id share, w.Committed id share → ∃ reading,
        share.Made (Visited step sharingStart (picnicShared ++ [.rewrite emptied, .tick 5]))
          reading ∧ ExposesOnly reading share.snapshot := by
  obtain ⟨w₁, hbefore, w, hafter, hresolve⟩ :
      ∃ w₁, run step sharingStart picnicShared = some w₁ ∧
        ∃ w, run step w₁ [.rewrite emptied, .tick 5] = some w ∧
          resolveShareAttachment w "t" "0-0" 5 = .ok (⟨77⟩, 7) :=
    ⟨_, rfl, _, rfl, by decide +kernel⟩
  exact ⟨w₁, w, hbefore, hafter, hresolve, (sharing_safety fresh_sharingStart hbefore hafter).2.1⟩

end IChat.Shares
