import Mathlib.Algebra.BigOperators.Group.List.Basic
import Mathlib.Logic.Function.Basic
import IChat.General.ReadCommitted
import IChat.General.StepSystem

/-!
# Pins

`set_conversation_pinned`, `set_conversation_favorited`, `delete_conversation` and
`restore_conversation` of one user, each in a transaction of its own at read committed. A step is
one statement with the lock it takes; a statement that has to wait is not enabled.

* A request that can add a pin holds the user's row (`pinLock`) from its first statement to its
  end; deleting, unpinning and favoriting lock at most the conversation.
* `World.Change` lists what one step of a request can do.
* `PinsInv` is kept by every step. Its last two fields are about the request that holds the user's
  row: the count it has read is still an upper bound, and what it is about to commit fits.

`pinLimit` collects what holds in every reachable state.
-/

namespace IChat.Conversations.Pins

open ReadCommitted StepSystem

/-- The columns of `conversations` that these requests read or write. -/
structure Conversation where
  deletedAt : Option ℕ
  deletionDueAt : Option ℕ
  pinnedAt : Option ℕ
  favoritedAt : Option ℕ
  updatedAt : ℕ
  deriving DecidableEq, Repr

/-- `PINNED_CONVERSATION_LIMIT`. -/
def pinnedConversationLimit : ℕ := 10

/-- A request about the conversation with an id. -/
inductive Request
  | setPinned (conversation : ℕ) (pinned : Bool)
  | setFavorited (conversation : ℕ) (favorited : Bool)
  | delete (conversation : ℕ)
  | restore (conversation : ℕ)
  deriving DecidableEq, Repr

inductive Outcome
  | ok | notFound | pinLimitReached | gone | aborted
  deriving DecidableEq, Repr

/-- How far a request has come. `read` and `counted` carry the row it has read. -/
inductive Phase
  | begun
  | userLocked
  | read (conversation : Conversation)
  | counted (conversation : Conversation) (pinned : ℕ)
  | written
  | finished (outcome : Outcome)
  deriving DecidableEq, Repr

/-- A request and the `now()` of its transaction. -/
structure Session where
  request : Request
  now : ℕ
  phase : Phase
  deriving DecidableEq, Repr

/-- The conversations of the user, the holder of the lock on the user's row, and the requests. -/
structure World where
  conversations : Store Conversation
  pinLock : Option ℕ
  requests : ℕ → Option Session

def Conversation.Visible (conversation : Conversation) : Prop := conversation.deletedAt = none

/-- The condition of `_pinned_count`. -/
def Conversation.Pinned (conversation : Conversation) : Prop :=
  conversation.pinnedAt.isSome ∧ conversation.deletedAt = none

instance (conversation : Conversation) : Decidable conversation.Visible :=
  inferInstanceAs (Decidable (_ = _))

instance (conversation : Conversation) : Decidable conversation.Pinned :=
  inferInstanceAs (Decidable (_ ∧ _))

/-- `_pinned_count`, over the versions that a function of the rows shows. -/
def pinnedCount (version : Row Conversation → Option Conversation) (s : Store Conversation) : ℕ :=
  s.rows.countP fun row => (version row).any fun conversation => conversation.Pinned

namespace World

def goto (w : World) (txn : ℕ) (session : Session) (phase : Phase) : World :=
  { w with requests := Function.update w.requests txn (some { session with phase }) }

/-- The end of a transaction, which gives back the lock on the user's row. -/
def finish (w : World) (txn : ℕ) (session : Session) (outcome : Outcome)
    (conversations : Store Conversation) : World :=
  goto { w with conversations, pinLock := if w.pinLock = some txn then none else w.pinLock }
    txn session (.finished outcome)

def commit (w : World) (txn : ℕ) (session : Session) : World :=
  w.finish txn session .ok (ReadCommitted.commit txn w.conversations)

/-- An exception, or the loss of the connection. -/
def rollback (w : World) (txn : ℕ) (session : Session) (outcome : Outcome) : World :=
  w.finish txn session outcome (ReadCommitted.rollback txn w.conversations)

/-- `_lock_user_pins`. -/
def lockUserPins (w : World) (txn : ℕ) (session : Session) : Option World :=
  if w.pinLock = none then some ({ w with pinLock := some txn }.goto txn session .userLocked)
  else none

/-- `SELECT ... FOR UPDATE` of the conversation, under a condition on it. -/
def selectForUpdate (w : World) (txn : ℕ) (session : Session) (id : ℕ)
    (condition : Conversation → Bool) : Option World :=
  match ReadCommitted.read txn id w.conversations with
  | none => some (w.rollback txn session .notFound)
  | some seen =>
    if condition seen then
      match update txn id (fun version => version) w.conversations with
      | none => none
      | some (conversation, conversations) =>
        some ({ w with conversations }.goto txn session (.read conversation))
    else some (w.rollback txn session .notFound)

/-- `UPDATE conversations ... WHERE id = ...`. -/
def write (w : World) (txn : ℕ) (session : Session) (id : ℕ) (f : Conversation → Conversation) :
    Option World :=
  match update txn id f w.conversations with
  | none => none
  | some (_, conversations) => some ({ w with conversations }.goto txn session .written)

/-- `set_conversation_pinned`. -/
def setConversationPinned (w : World) (txn : ℕ) (session : Session) (id : ℕ) (pinned : Bool) :
    Option World :=
  match session.phase with
  | .begun =>
    if pinned then w.lockUserPins txn session
    else w.selectForUpdate txn session id fun seen => seen.Visible
  | .userLocked => w.selectForUpdate txn session id fun seen => seen.Visible
  | .read conversation =>
    if pinned ∧ conversation.pinnedAt = none then
      some (w.goto txn session
        (.counted conversation (pinnedCount (Row.visible txn) w.conversations)))
    else if ¬pinned ∧ conversation.pinnedAt.isSome then
      w.write txn session id fun version =>
        { version with pinnedAt := none, updatedAt := version.updatedAt }
    else some (w.goto txn session .written)
  | .counted _ count =>
    if pinnedConversationLimit ≤ count then some (w.rollback txn session .pinLimitReached)
    else
      w.write txn session id fun version =>
        { version with pinnedAt := some session.now, updatedAt := version.updatedAt }
  | .written => some (w.commit txn session)
  | .finished _ => none

/-- `set_conversation_favorited`. -/
def setConversationFavorited (w : World) (txn : ℕ) (session : Session) (id : ℕ)
    (favorited : Bool) : Option World :=
  match session.phase with
  | .begun => w.selectForUpdate txn session id fun seen => seen.Visible
  | .read conversation =>
    if favorited ≠ conversation.favoritedAt.isSome then
      w.write txn session id fun version =>
        { version with
          favoritedAt := if favorited then some session.now else none
          updatedAt := version.updatedAt }
    else some (w.goto txn session .written)
  | .written => some (w.commit txn session)
  | _ => none

/-- `delete_conversation`: the conversation is read without a lock. -/
def deleteConversation (retention : ℕ) (w : World) (txn : ℕ) (session : Session) (id : ℕ) :
    Option World :=
  match session.phase with
  | .begun =>
    match ReadCommitted.read txn id w.conversations with
    | none => some (w.rollback txn session .notFound)
    | some seen =>
      if seen.Visible then some (w.goto txn session (.read seen))
      else some (w.rollback txn session .notFound)
  | .read _ =>
    w.write txn session id fun version =>
      { version with
        deletedAt := some session.now
        deletionDueAt := some (session.now + retention)
        updatedAt := session.now }
  | .written => some (w.commit txn session)
  | _ => none

/-- `restore_conversation`. -/
def restoreConversation (w : World) (txn : ℕ) (session : Session) (id : ℕ) : Option World :=
  match session.phase with
  | .begun => w.lockUserPins txn session
  | .userLocked => w.selectForUpdate txn session id fun seen => ¬seen.Visible
  | .read conversation =>
    if conversation.deletionDueAt.all (· ≤ session.now) then some (w.rollback txn session .gone)
    else
      -- without a pin nothing is counted, and no slot is asked for
      some (w.goto txn session (.counted conversation
        (if conversation.pinnedAt.isSome then pinnedCount (Row.visible txn) w.conversations
        else 0)))
  | .counted conversation count =>
    let pinSlotTaken := conversation.pinnedAt.isSome ∧ pinnedConversationLimit ≤ count
    w.write txn session id fun version =>
      { version with
        deletedAt := none
        deletionDueAt := none
        updatedAt := session.now
        pinnedAt := if pinSlotTaken then none else version.pinnedAt }
  | .written => some (w.commit txn session)
  | .finished _ => none

end World

/-- A request starts, takes its next step, or loses its connection. -/
inductive Action
  | start (txn : ℕ) (request : Request) (now : ℕ)
  | advance (txn : ℕ)
  | abort (txn : ℕ)
  deriving DecidableEq, Repr

def World.next (retention : ℕ) (w : World) (txn : ℕ) (session : Session) : Option World :=
  match session.request with
  | .setPinned id pinned => w.setConversationPinned txn session id pinned
  | .setFavorited id favorited => w.setConversationFavorited txn session id favorited
  | .delete id => w.deleteConversation retention txn session id
  | .restore id => w.restoreConversation txn session id

def step (retention : ℕ) (w : World) : Action → Option World
  | .start txn request now =>
    match w.requests txn with
    | some _ => none
    | none => some (w.goto txn ⟨request, now, .begun⟩ .begun)
  | .advance txn =>
    match w.requests txn with
    | none => none
    | some session => w.next retention txn session
  | .abort txn =>
    match w.requests txn with
    | none => none
    | some session =>
      match session.phase with
      | .finished _ => none
      | _ => some (w.rollback txn session .aborted)

/-! ### What one step can do -/

def Request.conversation : Request → ℕ
  | .setPinned id _ | .setFavorited id _ | .delete id | .restore id => id

/-- The request holds the user's row. -/
def Request.locksUser : Request → Bool
  | .setPinned _ pinned => pinned
  | .restore _ => true
  | _ => false

/-- The request reads the conversation under a lock. -/
def Request.locksRow : Request → Bool
  | .delete _ => false
  | _ => true

/-- The request sets a marker of the sidebar. -/
def Request.marks : Request → Bool
  | .setPinned _ _ | .setFavorited _ _ => true
  | _ => false

/-- The request has counted the pins for the conversation it has read. -/
def Request.counts (request : Request) (conversation : Conversation) : Bool :=
  match request with
  | .restore _ => conversation.pinnedAt.isSome
  | _ => true

/-- What a conversation adds to the number of pins. -/
def pinWeight (conversation : Conversation) : ℤ := if conversation.Pinned then 1 else 0

theorem pinWeight_nonneg (conversation : Conversation) : 0 ≤ pinWeight conversation := by
  unfold pinWeight
  split <;> omega

theorem pinWeight_le_one (conversation : Conversation) : pinWeight conversation ≤ 1 := by
  unfold pinWeight
  split <;> omega

theorem pinWeight_of_unpinned {conversation : Conversation} (h : conversation.pinnedAt = none) :
    pinWeight conversation = 0 :=
  if_neg fun hpinned => by simp [Conversation.Pinned, h] at hpinned

theorem pinWeight_of_deleted {conversation : Conversation} (h : conversation.deletedAt ≠ none) :
    pinWeight conversation = 0 :=
  if_neg fun hpinned => h hpinned.2

/-- What a request may write over a version: one without the user's row adds no pin, and one that
sets a marker keeps `updated_at`. -/
def Request.Writes (request : Request) (old new : Conversation) : Prop :=
  (request.locksUser = false → pinWeight new ≤ pinWeight old) ∧
    (request.marks = true → new.updatedAt = old.updatedAt)

/-- A request writes the version that it holds unchanged. -/
theorem Request.writes_self (request : Request) (old : Conversation) : request.Writes old old :=
  ⟨fun _ => le_refl _, fun _ => rfl⟩

/-- The pins are counted for a request that holds the user's row. -/
def Session.Counting (session : Session) : Prop :=
  ∀ seen n, session.phase = .counted seen n → session.request.locksUser = true

def Phase.isFinished : Phase → Bool
  | .finished _ => true
  | _ => false

namespace World

/-- The effects of one step of a request. -/
inductive Change (w : World) (txn : ℕ) (session : Session) : World → Prop
  | lockUser (phase : session.phase = .begun) (locks : session.request.locksUser = true)
      (free : w.pinLock = none) :
      Change w txn session ({ w with pinLock := some txn }.goto txn session .userLocked)
  | lockRow {version : Conversation} {conversations : Store Conversation}
      (row : session.request.locksRow = true)
      (phase : session.phase = .begun ∧ session.request.locksUser = false ∨
        session.phase = .userLocked)
      (locked : update txn session.request.conversation (fun version => version) w.conversations =
        some (version, conversations)) :
      Change w txn session ({ w with conversations }.goto txn session (.read version))
  | readRow (seen : Conversation) (row : session.request.locksRow = false)
      (phase : session.phase = .begun) : Change w txn session (w.goto txn session (.read seen))
  | count {seen : Conversation} (n : ℕ) (phase : session.phase = .read seen)
      (locks : session.request.locksUser = true)
      (counted : session.request.counts seen = true →
        n = pinnedCount (Row.visible txn) w.conversations) :
      Change w txn session (w.goto txn session (.counted seen n))
  | skip {seen : Conversation} (phase : session.phase = .read seen)
      (row : session.request.locksRow = true) :
      Change w txn session (w.goto txn session .written)
  | write {seen version : Conversation} {conversations : Store Conversation}
      (f : Conversation → Conversation)
      (phase : session.phase = .read seen ∨ ∃ n, session.phase = .counted seen n)
      (writes : ∀ old, session.request.Writes old (f old))
      (fits : session.request.locksUser = true → session.request.locksRow = true ∧
        (pinWeight (f seen) = 0 ∨ ∃ n, session.phase = .counted seen n ∧
          session.request.counts seen = true ∧ n < pinnedConversationLimit))
      (written : update txn session.request.conversation f w.conversations =
        some (version, conversations)) :
      Change w txn session ({ w with conversations }.goto txn session .written)
  | commit (phase : session.phase = .written) : Change w txn session (w.commit txn session)
  | rollback (outcome : Outcome)
      (restores : ∀ id, session.request = .restore id → outcome ≠ .pinLimitReached) :
      Change w txn session (w.rollback txn session outcome)

variable {w w' : World} {txn : ℕ} {session : Session} {retention : ℕ}

theorem lockUserPins_cases (hphase : session.phase = .begun)
    (hlocks : session.request.locksUser = true)
    (h : w.lockUserPins txn session = some w') : Change w txn session w' := by
  obtain ⟨hfree, heq⟩ := Option.ite_none_right_eq_some.mp h
  cases heq
  exact .lockUser hphase hlocks hfree

theorem selectForUpdate_cases {condition : Conversation → Bool}
    (hrow : session.request.locksRow = true)
    (hphase : session.phase = .begun ∧ session.request.locksUser = false ∨
      session.phase = .userLocked)
    (h : w.selectForUpdate txn session session.request.conversation condition = some w') :
    Change w txn session w' := by
  unfold selectForUpdate at h
  split at h
  · cases h
    exact .rollback _ fun _ _ => by decide
  · split at h
    · split at h
      · cases h
      · cases h
        exact .lockRow hrow hphase ‹_›
    · cases h
      exact .rollback _ fun _ _ => by decide

theorem write_cases {f : Conversation → Conversation} {seen : Conversation}
    (hphase : session.phase = .read seen ∨ ∃ n, session.phase = .counted seen n)
    (hwrites : ∀ old, session.request.Writes old (f old))
    (hfits : session.request.locksUser = true → session.request.locksRow = true ∧
      (pinWeight (f seen) = 0 ∨ ∃ n, session.phase = .counted seen n ∧
        session.request.counts seen = true ∧ n < pinnedConversationLimit))
    (h : w.write txn session session.request.conversation f = some w') :
    Change w txn session w' := by
  unfold write at h
  split at h
  · cases h
  · cases h
    exact .write f hphase hwrites hfits ‹_›

theorem setConversationPinned_cases {id : ℕ} {pinned : Bool}
    (hrequest : session.request = .setPinned id pinned) (hcounting : session.Counting)
    (h : w.setConversationPinned txn session id pinned = some w') : Change w txn session w' := by
  have hid : id = session.request.conversation := by rw [hrequest]; rfl
  have hrow : session.request.locksRow = true := by rw [hrequest]; rfl
  have hlocks : session.request.locksUser = pinned := by rw [hrequest]; rfl
  have hcounts : ∀ seen, session.request.counts seen = true := by
    intro seen
    rw [hrequest]
    rfl
  rw [hid] at h
  -- by the phase: pinning locks the user first, unpinning only the row
  cases hphase : session.phase with
  | begun =>
    cases pinned with
    | true =>
      simp only [setConversationPinned, hphase, if_true] at h
      exact lockUserPins_cases hphase hlocks h
    | false =>
      simp only [setConversationPinned, hphase, Bool.false_eq_true, if_false] at h
      exact selectForUpdate_cases hrow (.inl ⟨hphase, hlocks⟩) h
  | userLocked =>
    simp only [setConversationPinned, hphase] at h
    exact selectForUpdate_cases hrow (.inr hphase) h
  | read seen =>
    simp only [setConversationPinned, hphase] at h
    by_cases hpin : pinned = true ∧ seen.pinnedAt = none
    · rw [if_pos hpin] at h
      cases h
      exact .count _ hphase (hlocks.trans hpin.1) fun _ => rfl
    rw [if_neg hpin] at h
    by_cases hunpin : ¬pinned = true ∧ seen.pinnedAt.isSome = true
    · rw [if_pos hunpin] at h
      refine write_cases (.inl hphase) ?_ ?_ h
      · intro old
        refine ⟨fun _ => ?_, fun _ => rfl⟩
        rw [pinWeight_of_unpinned rfl]
        exact pinWeight_nonneg old
      · intro hpinned
        exact absurd (hlocks.symm.trans hpinned) hunpin.1
    · rw [if_neg hunpin] at h
      cases h
      exact .skip hphase hrow
  | counted seen n =>
    have hpins := hcounting seen n hphase
    simp only [setConversationPinned, hphase] at h
    by_cases hfull : pinnedConversationLimit ≤ n
    · rw [if_pos hfull] at h
      cases h
      refine .rollback _ fun id hrestore => ?_
      rw [hrequest] at hrestore
      cases hrestore
    · rw [if_neg hfull] at h
      refine write_cases (.inr ⟨n, hphase⟩) ?_ ?_ h
      · intro old
        exact ⟨fun hfree => absurd (hpins.symm.trans hfree) (by decide), fun _ => rfl⟩
      · exact fun _ => ⟨hrow, .inr ⟨n, hphase, hcounts seen, by omega⟩⟩
  | written =>
    simp only [setConversationPinned, hphase] at h
    cases h
    exact .commit hphase
  | finished =>
    simp only [setConversationPinned, hphase] at h
    cases h

theorem setConversationFavorited_cases {id : ℕ} {favorited : Bool}
    (hrequest : session.request = .setFavorited id favorited)
    (h : w.setConversationFavorited txn session id favorited = some w') :
    Change w txn session w' := by
  have hid : id = session.request.conversation := by rw [hrequest]; rfl
  have hrow : session.request.locksRow = true := by rw [hrequest]; rfl
  have hlocks : session.request.locksUser = false := by rw [hrequest]; rfl
  rw [hid] at h
  cases hphase : session.phase with
  | begun =>
    simp only [setConversationFavorited, hphase] at h
    exact selectForUpdate_cases hrow (.inl ⟨hphase, hlocks⟩) h
  | read seen =>
    simp only [setConversationFavorited, hphase] at h
    by_cases hchange : favorited ≠ seen.favoritedAt.isSome
    · rw [if_pos hchange] at h
      refine write_cases (.inl hphase) ?_ ?_ h
      · exact fun old => ⟨fun _ => le_refl _, fun _ => rfl⟩
      · exact fun hpins => absurd (hlocks.symm.trans hpins) (by decide)
    · rw [if_neg hchange] at h
      cases h
      exact .skip hphase hrow
  | written =>
    simp only [setConversationFavorited, hphase] at h
    cases h
    exact .commit hphase
  | userLocked | counted | finished =>
    simp only [setConversationFavorited, hphase] at h
    cases h

theorem deleteConversation_cases {id : ℕ} (hrequest : session.request = .delete id)
    (h : w.deleteConversation retention txn session id = some w') : Change w txn session w' := by
  have hid : id = session.request.conversation := by rw [hrequest]; rfl
  have hrow : session.request.locksRow = false := by rw [hrequest]; rfl
  have hlocks : session.request.locksUser = false := by rw [hrequest]; rfl
  have hmarks : session.request.marks = false := by rw [hrequest]; rfl
  have hnot : ∀ id', session.request ≠ .restore id' := by
    intro id' hrestore
    rw [hrequest] at hrestore
    cases hrestore
  rw [hid] at h
  cases hphase : session.phase with
  | begun =>
    simp only [deleteConversation, hphase] at h
    cases hread : ReadCommitted.read txn session.request.conversation w.conversations with
    | none =>
      simp only [hread] at h
      cases h
      exact .rollback _ fun id' hrestore => absurd hrestore (hnot id')
    | some seen =>
      simp only [hread] at h
      by_cases hvisible : seen.Visible
      · rw [if_pos hvisible] at h
        cases h
        exact .readRow seen hrow hphase
      · rw [if_neg hvisible] at h
        cases h
        exact .rollback _ fun id' hrestore => absurd hrestore (hnot id')
  | read =>
    simp only [deleteConversation, hphase] at h
    refine write_cases (.inl hphase) ?_ ?_ h
    · intro old
      refine ⟨fun _ => ?_, fun hmarks' => absurd (hmarks.symm.trans hmarks') (by decide)⟩
      rw [pinWeight_of_deleted (Option.some_ne_none _)]
      exact pinWeight_nonneg old
    · exact fun hpins => absurd (hlocks.symm.trans hpins) (by decide)
  | written =>
    simp only [deleteConversation, hphase] at h
    cases h
    exact .commit hphase
  | userLocked | counted | finished =>
    simp only [deleteConversation, hphase] at h
    cases h

theorem restoreConversation_cases {id : ℕ} (hrequest : session.request = .restore id)
    (h : w.restoreConversation txn session id = some w') : Change w txn session w' := by
  have hid : id = session.request.conversation := by rw [hrequest]; rfl
  have hrow : session.request.locksRow = true := by rw [hrequest]; rfl
  have hlocks : session.request.locksUser = true := by rw [hrequest]; rfl
  have hmarks : session.request.marks = false := by rw [hrequest]; rfl
  have hcounts : ∀ seen, session.request.counts seen = seen.pinnedAt.isSome := by
    intro seen
    rw [hrequest]
    rfl
  rw [hid] at h
  cases hphase : session.phase with
  | begun =>
    simp only [restoreConversation, hphase] at h
    exact lockUserPins_cases hphase hlocks h
  | userLocked =>
    simp only [restoreConversation, hphase] at h
    exact selectForUpdate_cases hrow (.inr hphase) h
  | read seen =>
    simp only [restoreConversation, hphase] at h
    by_cases hgone : seen.deletionDueAt.all (· ≤ session.now) = true
    · rw [if_pos hgone] at h
      cases h
      exact .rollback _ fun _ _ => by decide
    · rw [if_neg hgone] at h
      cases h
      refine .count _ hphase hlocks fun hpinned => ?_
      rw [hcounts] at hpinned
      rw [if_pos hpinned]
  | counted seen n =>
    simp only [restoreConversation, hphase] at h
    refine write_cases (.inr ⟨n, hphase⟩) ?_ ?_ h
    · intro old
      exact ⟨fun hfree => absurd (hlocks.symm.trans hfree) (by decide),
        fun hmarks' => absurd (hmarks.symm.trans hmarks') (by decide)⟩
    · intro _
      refine ⟨hrow, ?_⟩
      by_cases hpinned : seen.pinnedAt.isSome = true
      · by_cases hfull : pinnedConversationLimit ≤ n
        · left
          exact pinWeight_of_unpinned (if_pos ⟨hpinned, hfull⟩)
        · exact .inr ⟨n, hphase, (hcounts seen).trans hpinned, by omega⟩
      · left
        rw [Bool.not_eq_true, Option.isSome_eq_false_iff, Option.isNone_iff_eq_none] at hpinned
        refine pinWeight_of_unpinned ?_
        simp [hpinned]
  | written =>
    simp only [restoreConversation, hphase] at h
    cases h
    exact .commit hphase
  | finished =>
    simp only [restoreConversation, hphase] at h
    cases h

/-- Every step of a request is one of the changes. -/
theorem next_cases (hcounting : session.Counting) (h : w.next retention txn session = some w') :
    Change w txn session w' := by
  unfold next at h
  split at h
  · exact setConversationPinned_cases ‹_› hcounting h
  · exact setConversationFavorited_cases ‹_› h
  · exact deleteConversation_cases ‹_› h
  · exact restoreConversation_cases ‹_› h

end World

/-! ### The invariant -/

/-- The conversation that the request has read and not yet written. -/
def Session.Reads (session : Session) (seen : Conversation) : Prop :=
  session.phase = .read seen ∨ ∃ n, session.phase = .counted seen n

/-- The request is between its first statement and its end. -/
def Phase.Acting (phase : Phase) : Prop := phase ≠ .begun ∧ ∀ outcome, phase ≠ .finished outcome

/-- A version that the request holds over a committed one: the same until it writes. -/
def Session.Holds (session : Session) (old version : Conversation) : Prop :=
  (session.request.locksRow = true ∧ session.Reads version ∧ version = old) ∨
    (session.phase = .written ∧ session.request.Writes old version)

theorem Session.Holds.writes {session : Session} {old version : Conversation}
    (h : session.Holds old version) : session.request.Writes old version := by
  obtain ⟨-, -, rfl⟩ | ⟨-, hwrites⟩ := h
  · exact session.request.writes_self version
  · exact hwrites

/-- What is true of a request in a state of the other tables. -/
structure SessionOk (conversations : Store Conversation) (pinLock : Option ℕ) (txn : ℕ)
    (session : Session) : Prop where
  /-- The conversation it has read is locked. -/
  locked : ∀ seen, session.request.locksRow = true → session.Reads seen →
    ∃ row, conversations.get? session.request.conversation = some row ∧
      row.pending = some (txn, seen)
  counting : session.Counting
  /-- The user's row is its own while it may add a pin. -/
  holder : session.request.locksUser = true → session.phase.Acting → pinLock = some txn
  /-- The count it has read is still an upper bound. -/
  counted : ∀ seen n, session.phase = .counted seen n → session.request.counts seen = true →
    committedSum pinWeight conversations ≤ n
  /-- What it has written fits. -/
  fits : session.request.locksUser = true → session.phase = .written →
    sumAfter txn pinWeight conversations ≤ pinnedConversationLimit

structure PinsInv (w : World) : Prop where
  committed : ∀ id row, w.conversations.get? id = some row → ∃ old, row.committed = some old
  held : ∀ id row txn version, w.conversations.get? id = some row →
    row.pending = some (txn, version) → ∃ session old, w.requests txn = some session ∧
      session.request.conversation = id ∧ row.committed = some old ∧ session.Holds old version
  limit : committedSum pinWeight w.conversations ≤ pinnedConversationLimit
  sessions : ∀ txn session, w.requests txn = some session →
    SessionOk w.conversations w.pinLock txn session

section transfer

variable {conversations conversations' : Store Conversation} {pinLock : Option ℕ} {txn other id : ℕ}
  {session : Session} {f : Conversation → Conversation} {version : Conversation}

/-- A request that does not hold the user's row can only add to nothing. -/
theorem PinsInv.noHeavier {w : World} (hinv : PinsInv w) (hsession : w.requests txn = some session)
    (hfree : session.request.locksUser = false) : NoHeavier pinWeight txn w.conversations := by
  intro row hrow version hpending
  obtain ⟨session', old, hsession', -, hold, hholds⟩ :=
    hinv.held row.id row txn version (Table.get?_key hrow) hpending
  obtain rfl : session = session' := Option.eq_some_unique hsession hsession'
  rw [weight, hold]
  exact hholds.writes.1 hfree

/-- Before it writes, no request adds to the count. -/
theorem PinsInv.noHeavier_of_reads {w : World} (hinv : PinsInv w)
    (hsession : w.requests txn = some session) (hphase : session.phase ≠ .written) :
    NoHeavier pinWeight txn w.conversations := by
  intro row hrow version hpending
  obtain ⟨session', old, hsession', -, hold, hholds⟩ :=
    hinv.held row.id row txn version (Table.get?_key hrow) hpending
  obtain rfl : session = session' := Option.eq_some_unique hsession hsession'
  obtain ⟨-, -, rfl⟩ | ⟨hwritten, -⟩ := hholds
  · rw [weight, hold]
    exact le_refl _
  · exact absurd hwritten hphase

/-- A statement of another transaction. -/
theorem SessionOk.update (hok : SessionOk conversations pinLock txn session) (hne : other ≠ txn)
    (h : update other id f conversations = some (version, conversations')) :
    SessionOk conversations' pinLock txn session where
  locked seen hrow hreads := by
    obtain ⟨row, hget, hpending⟩ := hok.locked seen hrow hreads
    obtain ⟨row', hget', hfree, -, rfl⟩ := update_cases h
    have hother : session.request.conversation ≠ id := by
      rintro rfl
      obtain rfl : row = row' := Option.eq_some_unique hget hget'
      exact hne (hfree _ hpending).symm
    exact ⟨row, by rw [get?_set_write hget', if_neg hother, hget], hpending⟩
  counting := hok.counting
  holder := hok.holder
  counted seen n hphase hcounts := by
    rw [committedSum_update h]
    exact hok.counted seen n hphase hcounts
  fits hlocks hphase := by
    rw [sumAfter_update_of_ne hne h]
    exact hok.fits hlocks hphase

/-- The commit of another transaction, which adds nothing unless it holds the user's row. -/
theorem SessionOk.commit (hok : SessionOk conversations pinLock txn session) (hne : other ≠ txn)
    (hadds : session.request.locksUser = true → session.phase.Acting →
      NoHeavier pinWeight other conversations) :
    SessionOk (ReadCommitted.commit other conversations)
      (if pinLock = some other then none else pinLock) txn session where
  locked seen hrow hreads := by
    obtain ⟨row, hget, hpending⟩ := hok.locked seen hrow hreads
    exact ⟨row.commit other, by rw [get?_commit, hget]; rfl,
      (Row.pending_commit_iff hne.symm).mpr hpending⟩
  counting := hok.counting
  holder hlocks hacting := by
    rw [hok.holder hlocks hacting, if_neg fun h => hne (Option.some.inj h).symm]
  counted seen n hphase hcounts := by
    have hacting : session.phase.Acting := by
      rw [hphase]
      exact ⟨nofun, nofun⟩
    have hsum := hok.counted seen n hphase hcounts
    have hle := committedSum_commit_le (hadds (hok.counting seen n hphase) hacting)
    omega
  fits hlocks hphase := by
    have hacting : session.phase.Acting := by
      rw [hphase]
      exact ⟨nofun, nofun⟩
    have hsum := hok.fits hlocks hphase
    have hle := sumAfter_commit_le hne (hadds hlocks hacting)
    omega

/-- The rollback of another transaction. -/
theorem SessionOk.rollback (hok : SessionOk conversations pinLock txn session) (hne : other ≠ txn) :
    SessionOk (ReadCommitted.rollback other conversations)
      (if pinLock = some other then none else pinLock) txn session where
  locked seen hrow hreads := by
    obtain ⟨row, hget, hpending⟩ := hok.locked seen hrow hreads
    exact ⟨row.rollback other, by rw [get?_rollback, hget]; rfl,
      (Row.pending_rollback_iff hne.symm).mpr hpending⟩
  counting := hok.counting
  holder hlocks hacting := by
    rw [hok.holder hlocks hacting, if_neg fun h => hne (Option.some.inj h).symm]
  counted seen n hphase hcounts := by
    rw [committedSum_rollback]
    exact hok.counted seen n hphase hcounts
  fits hlocks hphase := by
    rw [sumAfter_rollback hne]
    exact hok.fits hlocks hphase

/-- A request that has finished, or has done nothing, is in order in every state. -/
theorem SessionOk.idle (hphase : ¬session.phase.Acting) :
    SessionOk conversations pinLock txn session where
  locked seen _ hreads := by
    obtain h | ⟨n, h⟩ := hreads <;> exact absurd ⟨by simp [h], by simp [h]⟩ hphase
  counting seen n h := absurd ⟨by simp [h], by simp [h]⟩ hphase
  holder _ hacting := absurd hacting hphase
  counted seen n h _ := absurd ⟨by simp [h], by simp [h]⟩ hphase
  fits _ h := absurd ⟨by simp [h], by simp [h]⟩ hphase

end transfer

section preservation

variable {w w' : World} {txn : ℕ} {session : Session} {retention : ℕ}

@[simp] theorem requests_goto (phase : Phase) :
    (w.goto txn session phase).requests =
      Function.update w.requests txn (some { session with phase }) := rfl

/-- The requests after one of them has moved on. -/
theorem of_requests_goto {phase : Phase} {other : ℕ} {session' : Session}
    (h : (w.goto txn session phase).requests other = some session') :
    other = txn ∧ session' = { session with phase } ∨ other ≠ txn ∧ w.requests other =
      some session' :=
  of_update_some h

/-- A request moves on without a statement that writes or locks. -/
theorem PinsInv.goto (hinv : PinsInv w) (hsession : w.requests txn = some session) {phase : Phase}
    (hholds : ∀ old version, session.Holds old version →
      Session.Holds { session with phase } old version)
    (hok : SessionOk w.conversations w.pinLock txn { session with phase }) :
    PinsInv (w.goto txn session phase) where
  committed := hinv.committed
  held id row holder version hget hpending := by
    obtain ⟨session', old, hsession', hid, hold, hholds'⟩ :=
      hinv.held id row holder version hget hpending
    by_cases hother : holder = txn
    · subst hother
      obtain rfl : session = session' := Option.eq_some_unique hsession hsession'
      exact ⟨_, old, Function.update_self .., hid, hold, hholds old version hholds'⟩
    · exact ⟨session', old, (Function.update_of_ne hother ..).trans hsession', hid, hold, hholds'⟩
  limit := hinv.limit
  sessions other session' hsession' := by
    obtain ⟨rfl, rfl⟩ | ⟨-, hkept⟩ := of_requests_goto hsession'
    · exact hok
    · exact hinv.sessions other session' hkept

/-- A request takes the lock on the user's row. -/
theorem PinsInv.lockUser (hinv : PinsInv w) (hsession : w.requests txn = some session)
    (hphase : session.phase = .begun) (hfree : w.pinLock = none) :
    PinsInv ({ w with pinLock := some txn }.goto txn session .userLocked) where
  committed := hinv.committed
  held id row holder version hget hpending := by
    obtain ⟨session', old, hsession', hid, hold, hholds⟩ :=
      hinv.held id row holder version hget hpending
    by_cases hother : holder = txn
    · subst hother
      obtain rfl : session = session' := Option.eq_some_unique hsession hsession'
      obtain ⟨-, h | ⟨n, h⟩, -⟩ | ⟨h, -⟩ := hholds <;> simp [hphase] at h
    · exact ⟨session', old, (Function.update_of_ne hother ..).trans hsession', hid, hold, hholds⟩
  limit := hinv.limit
  sessions other session' hsession' := by
    obtain ⟨rfl, rfl⟩ | ⟨-, hkept⟩ := of_requests_goto hsession'
    · exact {
        locked := fun seen _ hreads => by obtain h | ⟨n, h⟩ := hreads <;> cases h
        counting := fun seen n h => by cases h
        holder := fun _ _ => rfl
        counted := fun seen n h _ => by cases h
        fits := fun _ h => by cases h }
    · have hok := hinv.sessions other session' hkept
      refine ⟨hok.locked, hok.counting, fun hlocks hacting => ?_, hok.counted, hok.fits⟩
      have hholder := hok.holder hlocks hacting
      rw [hfree] at hholder
      cases hholder

/-- A request that has not written sees the committed version. -/
theorem PinsInv.visible (hinv : PinsInv w) (hsession : w.requests txn = some session)
    (hphase : session.phase ≠ .written) {id : ℕ} {row : Row Conversation}
    {version : Conversation} (hget : w.conversations.get? id = some row)
    (hvisible : row.visible txn = some version) : row.committed = some version := by
  obtain ⟨held, hpending⟩ | hnot := row.held_or_not txn
  · obtain ⟨session', old, hsession', -, hold, hholds⟩ := hinv.held id row txn held hget hpending
    obtain rfl : session = session' := Option.eq_some_unique hsession hsession'
    obtain ⟨-, -, rfl⟩ | ⟨hwritten, -⟩ := hholds
    · rw [Row.visible_of_pending hpending] at hvisible
      rw [hold, hvisible]
    · exact absurd hwritten hphase
  · rw [← hvisible, Row.visible_of_not_held hnot]

/-- A request writes a row, or takes its lock. -/
theorem PinsInv.update {conversations : Store Conversation} {f : Conversation → Conversation}
    {version : Conversation} {phase : Phase} (hinv : PinsInv w)
    (hsession : w.requests txn = some session) (hphase : session.phase ≠ .written)
    (h : ReadCommitted.update txn session.request.conversation f w.conversations =
      some (version, conversations))
    (hholds : Session.Holds { session with phase } version (f version))
    (hok : SessionOk conversations w.pinLock txn { session with phase }) :
    PinsInv ({ w with conversations }.goto txn session phase) := by
  obtain ⟨row, hget, hfree, hvisible, hset⟩ := update_cases h
  have hcommitted := hinv.visible hsession hphase hget hvisible
  have hlookup : ∀ id row', conversations.get? id = some row' →
      id = session.request.conversation ∧ row' = row.write txn (f version) ∨
        id ≠ session.request.conversation ∧ w.conversations.get? id = some row' := by
    intro id row' hget'
    rw [hset, get?_set_write hget] at hget'
    by_cases hid : id = session.request.conversation
    · rw [if_pos hid] at hget'
      exact .inl ⟨hid, (Option.some.inj hget').symm⟩
    · rw [if_neg hid] at hget'
      exact .inr ⟨hid, hget'⟩
  refine ⟨?_, ?_, ?_, ?_⟩
  · intro id row' hget'
    obtain ⟨-, rfl⟩ | ⟨-, hkept⟩ := hlookup id row' hget'
    · exact ⟨version, hcommitted⟩
    · exact hinv.committed id row' hkept
  · intro id row' holder held hget' hpending
    obtain ⟨rfl, rfl⟩ | ⟨hid, hkept⟩ := hlookup id row' hget'
    · obtain ⟨rfl, rfl⟩ := Prod.mk.inj (Option.some.inj hpending)
      exact ⟨_, version, Function.update_self .., rfl, hcommitted, hholds⟩
    · obtain ⟨session', old, hsession', hid', hold, hholds'⟩ :=
        hinv.held id row' holder held hkept hpending
      have hother : holder ≠ txn := by
        rintro rfl
        obtain rfl : session = session' := Option.eq_some_unique hsession hsession'
        exact hid hid'.symm
      exact ⟨session', old, (Function.update_of_ne hother ..).trans hsession', hid', hold, hholds'⟩
  · have hsum : committedSum pinWeight conversations = committedSum pinWeight w.conversations :=
      committedSum_update h
    exact hsum ▸ hinv.limit
  · intro other session' hsession'
    obtain ⟨rfl, rfl⟩ | ⟨hother, hkept⟩ := of_requests_goto hsession'
    · exact hok
    · exact (hinv.sessions other session' hkept).update (Ne.symm hother) h

/-- A transaction ends: the versions it holds are committed or dropped. -/
theorem PinsInv.finish {conversations : Store Conversation} (hinv : PinsInv w) (outcome : Outcome)
    (ended : Row Conversation → Row Conversation)
    (hget : ∀ id, conversations.get? id = (w.conversations.get? id).map ended)
    (hcommitted : ∀ row old, row.committed = some old → ∃ new, (ended row).committed = some new)
    (hkept : ∀ row p, (ended row).pending = some p → ended row = row ∧ p.1 ≠ txn)
    (hlimit : committedSum pinWeight conversations ≤ pinnedConversationLimit)
    (hothers : ∀ other session', other ≠ txn → w.requests other = some session' →
      SessionOk conversations (if w.pinLock = some txn then none else w.pinLock) other session') :
    PinsInv (w.finish txn session outcome conversations) where
  committed id row hrow := by
    obtain ⟨old, hold, rfl⟩ := Option.map_eq_some_iff.mp ((hget id).symm.trans hrow)
    obtain ⟨version, hversion⟩ := hinv.committed id old hold
    exact hcommitted old version hversion
  held id row holder version hrow hpending := by
    obtain ⟨old, hold, rfl⟩ := Option.map_eq_some_iff.mp ((hget id).symm.trans hrow)
    obtain ⟨hsame, hother⟩ := hkept old _ hpending
    rw [hsame] at hpending ⊢
    obtain ⟨session', held, hsession', hid, hheld, hholds⟩ :=
      hinv.held id old holder version hold hpending
    exact ⟨session', held, (Function.update_of_ne hother ..).trans hsession', hid, hheld, hholds⟩
  limit := hlimit
  sessions other session' hsession' := by
    obtain ⟨-, rfl⟩ | ⟨hother, hrest⟩ := of_requests_goto hsession'
    · exact .idle fun hacting => hacting.2 outcome rfl
    · exact hothers other session' hother hrest

theorem PinsInv.rollback (hinv : PinsInv w) (outcome : Outcome) :
    PinsInv (w.rollback txn session outcome) := by
  refine hinv.finish outcome (Row.rollback txn) (fun _ => get?_rollback) ?_ ?_ ?_ ?_
  · intro row old hold
    exact ⟨old, Row.committed_rollback.trans hold⟩
  · exact fun _ _ => Row.of_pending_rollback
  · rw [committedSum_rollback]
    exact hinv.limit
  · exact fun other session' hother hsession' =>
      (hinv.sessions other session' hsession').rollback (Ne.symm hother)

/-- The commit of a request: what the holder of the user's row has written fits, and the others
add nothing. -/
theorem PinsInv.commit (hinv : PinsInv w) (hsession : w.requests txn = some session)
    (hphase : session.phase = .written) : PinsInv (w.commit txn session) := by
  have hacting : session.phase.Acting := by
    rw [hphase]
    exact ⟨nofun, nofun⟩
  have hok := hinv.sessions txn session hsession
  refine hinv.finish .ok (Row.commit txn) (fun _ => get?_commit) ?_ ?_ ?_ ?_
  · exact fun _ _ => Row.committed_commit
  · exact fun _ _ => Row.of_pending_commit
  · cases hlocks : session.request.locksUser with
    | true => exact hok.fits hlocks hphase
    | false =>
      have hle := committedSum_commit_le (hinv.noHeavier hsession hlocks)
      have hlimit := hinv.limit
      omega
  · intro other session' hother hsession'
    have hok' := hinv.sessions other session' hsession'
    refine hok'.commit (Ne.symm hother) fun hlocks' hacting' => ?_
    cases hlocks : session.request.locksUser with
    | true =>
      -- the user's row cannot be held by both
      have hmine := hok.holder hlocks hacting
      have htheirs := hok'.holder hlocks' hacting'
      exact absurd (Option.eq_some_unique htheirs hmine) hother
    | false => exact hinv.noHeavier hsession hlocks

theorem pinnedCount_eq_sum (version : Row Conversation → Option Conversation)
    (s : Store Conversation) :
    (pinnedCount version s : ℤ) = s.sum fun row => (version row).elim 0 pinWeight := by
  have hrows : ∀ rows : List (Row Conversation),
      ((rows.countP fun row => (version row).any fun conversation => conversation.Pinned : ℕ) : ℤ) =
        (rows.map fun row => (version row).elim 0 pinWeight).sum := by
    intro rows
    induction rows with
    | nil => rfl
    | cons row rows ih =>
      rw [List.countP_cons, List.map_cons, List.sum_cons, ← ih]
      cases version row with
      | none => simp
      | some conversation =>
        by_cases hpinned : conversation.Pinned <;> simp [pinWeight, hpinned, add_comm]
  exact hrows s.rows

/-- A request that has not written counts the committed pins. -/
theorem PinsInv.pinnedCount_eq (hinv : PinsInv w) (hsession : w.requests txn = some session)
    (hphase : session.phase ≠ .written) :
    (pinnedCount (Row.visible txn) w.conversations : ℤ) =
      committedSum pinWeight w.conversations := by
  rw [pinnedCount_eq_sum]
  refine Table.sum_congr fun row hrow => ?_
  obtain ⟨old, hold⟩ := hinv.committed row.id row (Table.get?_key hrow)
  have hvisible : row.visible txn = some old := by
    cases hvisible : row.visible txn with
    | some => rw [← hold, hinv.visible hsession hphase (Table.get?_key hrow) hvisible]
    | none =>
      obtain ⟨held, hpending⟩ | hnot := row.held_or_not txn
      · rw [Row.visible_of_pending hpending] at hvisible
        cases hvisible
      · rw [Row.visible_of_not_held hnot, hold] at hvisible
        cases hvisible
  rw [hvisible, weight, hold]

theorem Request.locksUser_of_locksRow {request : Request} (h : request.locksRow = false) :
    request.locksUser = false := by
  cases request <;> first | rfl | cases h

/-- What the holder of the user's row writes leaves room for it. -/
theorem PinsInv.sumAfter_write {seen version : Conversation}
    {conversations : Store Conversation} {f : Conversation → Conversation} (hinv : PinsInv w)
    (hsession : w.requests txn = some session) (hreads : session.Reads seen)
    (hrow : session.request.locksRow = true)
    (hfits : pinWeight (f seen) = 0 ∨ ∃ n, session.phase = .counted seen n ∧
      session.request.counts seen = true ∧ n < pinnedConversationLimit)
    (h : ReadCommitted.update txn session.request.conversation f w.conversations =
      some (version, conversations)) :
    sumAfter txn pinWeight conversations ≤ pinnedConversationLimit := by
  have hok := hinv.sessions txn session hsession
  have hphase : session.phase ≠ .written := by
    obtain hread | ⟨n, hcounted⟩ := hreads
    · simp [hread]
    · simp [hcounted]
  obtain ⟨row, hget, hpending⟩ := hok.locked seen hrow hreads
  obtain ⟨row', hget', -, hvisible, -⟩ := update_cases h
  obtain rfl : row = row' := Option.eq_some_unique hget hget'
  obtain rfl : seen = version :=
    Option.eq_some_unique (Row.visible_of_pending hpending) hvisible
  have hold : weight pinWeight (row.commit txn) = pinWeight seen := by
    rw [Row.commit_of_pending hpending]
    rfl
  have hsum := sumAfter_update (w := pinWeight) h hget
  have hle := committedSum_commit_le (hinv.noHeavier_of_reads hsession hphase)
  rw [← sumAfter] at hle
  have hlimit := hinv.limit
  have hseen := pinWeight_nonneg seen
  rw [hold] at hsum
  obtain hzero | ⟨n, hcounted, hcounts, hn⟩ := hfits
  · omega
  · have hone := pinWeight_le_one (f seen)
    have hcount := hok.counted seen n hcounted hcounts
    omega

/-- Every change of a request keeps the invariant. -/
theorem PinsInv.change (hinv : PinsInv w) (hsession : w.requests txn = some session)
    (h : World.Change w txn session w') : PinsInv w' := by
  have hok := hinv.sessions txn session hsession
  -- one case per statement of a request
  cases h with
  | lockUser hphase hlocks hfree => exact hinv.lockUser hsession hphase hfree
  | rollback outcome => exact hinv.rollback outcome
  | commit hphase => exact hinv.commit hsession hphase
  | readRow seen hrow hphase =>
    refine hinv.goto hsession ?_ ?_
    · intro old version hholds
      obtain ⟨hlocks, -⟩ | ⟨hwritten, -⟩ := hholds
      · exact absurd (hrow.symm.trans hlocks) (by decide)
      · exact absurd (hphase.symm.trans hwritten) (by decide)
    · refine ⟨fun _ hlocks _ => absurd (hrow.symm.trans hlocks) (by decide),
        nofun, ?_, nofun, nofun⟩
      intro hlocks _
      exact absurd ((Request.locksUser_of_locksRow hrow).symm.trans hlocks) (by decide)
  | @count seen n hphase hlocks hcounted =>
    have hwritten : session.phase ≠ .written := by simp [hphase]
    refine hinv.goto hsession ?_ ?_
    · intro old version hholds
      obtain ⟨hrow, hreads, rfl⟩ | ⟨hwritten', -⟩ := hholds
      · obtain hread | ⟨m, hread⟩ := hreads
        · obtain rfl : seen = version := by simpa using hphase.symm.trans hread
          exact .inl ⟨hrow, .inr ⟨n, rfl⟩, rfl⟩
        · exact absurd (hphase.symm.trans hread) nofun
      · exact absurd hwritten' hwritten
    · refine ⟨?_, fun _ _ _ => hlocks, ?_, ?_, nofun⟩
      · rintro seen' hrow (hread | ⟨m, hread⟩)
        · cases hread
        · obtain ⟨rfl, rfl⟩ := Phase.counted.inj hread
          exact hok.locked seen hrow (.inl hphase)
      · intro _ _
        exact hok.holder hlocks (by rw [hphase]; exact ⟨nofun, nofun⟩)
      · rintro seen' m hread hcounts
        obtain ⟨rfl, rfl⟩ := Phase.counted.inj hread
        -- the count agrees with the committed sum: the user's lock keeps other writers out
        rw [hcounted hcounts, hinv.pinnedCount_eq hsession hwritten]
  | @skip seen hphase hrow =>
    have hwritten : session.phase ≠ .written := by simp [hphase]
    refine hinv.goto hsession ?_ ?_
    · intro old version hholds
      exact .inr ⟨rfl, hholds.writes⟩
    · refine ⟨?_, nofun, ?_, nofun, ?_⟩
      · rintro seen' _ (hread | ⟨m, hread⟩) <;> cases hread
      · intro hlocks _
        exact hok.holder hlocks (by rw [hphase]; exact ⟨nofun, nofun⟩)
      · intro _ _
        -- a skipped write leaves the sum no heavier
        have hle := committedSum_commit_le (hinv.noHeavier_of_reads hsession hwritten)
        exact le_trans hle hinv.limit
  | @lockRow version conversations hrow hphase hlocked =>
    have hwritten : session.phase ≠ .written := by
      obtain ⟨hbegun, -⟩ | huser := hphase
      · simp [hbegun]
      · simp [huser]
    refine hinv.update hsession hwritten hlocked (.inl ⟨hrow, .inl rfl, rfl⟩) ?_
    obtain ⟨row, hget, -, -, rfl⟩ := update_cases hlocked
    refine ⟨?_, nofun, ?_, nofun, nofun⟩
    · rintro seen _ (hread | ⟨m, hread⟩)
      · obtain rfl := Phase.read.inj hread
        exact ⟨row.write txn version, by rw [get?_set_write hget, if_pos rfl], rfl⟩
      · cases hread
    · intro hlocks _
      obtain ⟨-, hfree⟩ | huser := hphase
      · exact absurd (hfree.symm.trans hlocks) (by decide)
      · exact hok.holder hlocks (by rw [huser]; exact ⟨nofun, nofun⟩)
  | @write seen version conversations f hphase hwrites hfits hupdate =>
    have hacting : session.phase ≠ .written ∧ session.phase.Acting := by
      obtain hread | ⟨n, hcounted⟩ := hphase
      · exact ⟨by simp [hread], by rw [hread]; exact ⟨nofun, nofun⟩⟩
      · exact ⟨by simp [hcounted], by rw [hcounted]; exact ⟨nofun, nofun⟩⟩
    refine hinv.update hsession hacting.1 hupdate (.inr ⟨rfl, hwrites version⟩) ?_
    refine ⟨?_, nofun, fun hlocks _ => hok.holder hlocks hacting.2, nofun, ?_⟩
    · rintro seen' _ (hread | ⟨m, hread⟩) <;> cases hread
    · intro hlocks _
      obtain ⟨hrow, hroom⟩ := hfits hlocks
      exact hinv.sumAfter_write hsession hphase hrow hroom hupdate

/-- The invariant is kept by every step. -/
theorem PinsInv.step {action : Action} (hinv : PinsInv w)
    (h : step retention w action = some w') : PinsInv w' := by
  cases action with
  | start txn =>
    simp only [Pins.step] at h
    cases hsession : w.requests txn with
    | some => simp [hsession] at h
    | none =>
      simp only [hsession] at h
      cases h
      refine ⟨hinv.committed, ?_, hinv.limit, ?_⟩
      · intro id row holder version hget hpending
        obtain ⟨session', old, hsession', hrest⟩ := hinv.held id row holder version hget hpending
        have hother : holder ≠ txn := by
          rintro rfl
          rw [hsession] at hsession'
          cases hsession'
        exact ⟨session', old, (Function.update_of_ne hother ..).trans hsession', hrest⟩
      · intro other session' hsession'
        obtain ⟨rfl, rfl⟩ | ⟨-, hkept⟩ := of_requests_goto hsession'
        · exact .idle fun hacting => hacting.1 rfl
        · exact hinv.sessions other session' hkept
  | advance txn =>
    simp only [Pins.step] at h
    cases hsession : w.requests txn with
    | none => simp [hsession] at h
    | some session =>
      simp only [hsession] at h
      exact hinv.change hsession
        (World.next_cases (hinv.sessions txn session hsession).counting h)
  | abort txn =>
    simp only [Pins.step] at h
    cases hsession : w.requests txn with
    | none => simp [hsession] at h
    | some =>
      simp only [hsession] at h
      split at h
      · cases h
      · cases h
        exact hinv.rollback .aborted

end preservation

/-! ### Every run -/

/-- How many conversations are pinned and not deleted. -/
def World.pinnedConversations (w : World) : ℕ := pinnedCount (·.committed) w.conversations

/-- The `updated_at` of a conversation. -/
def World.updatedAt (w : World) (id : ℕ) : Option ℕ :=
  ((w.conversations.get? id).bind (·.committed)).map (·.updatedAt)

def Action.txn : Action → ℕ
  | .start txn _ _ | .advance txn | .abort txn => txn

/-- No request has started, and the pins are within the limit. -/
structure World.Quiet (w : World) : Prop where
  committed : ∀ id row, w.conversations.get? id = some row →
    (∃ old, row.committed = some old) ∧ row.pending = none
  requests : ∀ txn, w.requests txn = none
  limit : w.pinnedConversations ≤ pinnedConversationLimit

section runs

variable {w w' : World} {txn : ℕ} {session : Session} {retention : ℕ}

theorem pinnedConversations_eq (w : World) :
    (w.pinnedConversations : ℤ) = committedSum pinWeight w.conversations :=
  pinnedCount_eq_sum _ _

theorem World.Quiet.inv (hquiet : w.Quiet) : PinsInv w where
  committed id row hget := (hquiet.committed id row hget).1
  held id row holder version hget hpending := by
    rw [(hquiet.committed id row hget).2] at hpending
    cases hpending
  limit := by
    rw [← pinnedConversations_eq]
    exact_mod_cast hquiet.limit
  sessions txn session hsession := by
    rw [hquiet.requests] at hsession
    cases hsession

/-- A restore does not end with the error of the pins. -/
def RestoresFree (w : World) : Prop :=
  ∀ txn session id, w.requests txn = some session → session.request = .restore id →
    session.phase ≠ .finished .pinLimitReached

/-- The phase of a request after a change. -/
theorem World.Change.requests (h : World.Change w txn session w') :
    ∃ phase, w'.requests = Function.update w.requests txn (some { session with phase }) ∧
      ∀ id, session.request = .restore id → phase ≠ .finished .pinLimitReached := by
  cases h with
  | rollback outcome hrestores =>
    exact ⟨_, rfl, fun id hid heq => hrestores id hid (Phase.finished.inj heq)⟩
  | commit _ => exact ⟨_, rfl, fun _ _ => by decide⟩
  | lockUser | lockRow | readRow | count | skip | write => exact ⟨_, rfl, fun _ _ => nofun⟩

theorem RestoresFree.step {action : Action} (hfree : RestoresFree w) (hinv : PinsInv w)
    (h : Pins.step retention w action = some w') : RestoresFree w' := by
  have hkeep : ∀ (txn' : ℕ) (session' : Session) (phase : Phase),
      w'.requests = Function.update w.requests txn' (some { session' with phase }) →
      (∀ id, session'.request = .restore id → phase ≠ .finished .pinLimitReached) →
      RestoresFree w' := by
    intro txn' session' phase hrequests hphase txn session id hsession hrestore
    rw [hrequests] at hsession
    by_cases htxn : txn = txn'
    · subst htxn
      rw [Function.update_self] at hsession
      cases hsession
      exact hphase id hrestore
    · rw [Function.update_of_ne htxn] at hsession
      exact hfree txn session id hsession hrestore
  cases action with
  | start txn request now =>
    simp only [Pins.step] at h
    split at h
    · cases h
    · cases h
      exact hkeep txn ⟨request, now, .begun⟩ .begun rfl fun _ _ => nofun
  | advance txn =>
    simp only [Pins.step] at h
    cases hsession : w.requests txn with
    | none => simp [hsession] at h
    | some session =>
      simp only [hsession] at h
      have hchange := World.next_cases (hinv.sessions txn session hsession).counting h
      obtain ⟨phase, hrequests, hphase⟩ := hchange.requests
      exact hkeep txn session phase hrequests hphase
  | abort txn =>
    simp only [Pins.step] at h
    cases hsession : w.requests txn with
    | none => simp [hsession] at h
    | some session =>
      simp only [hsession] at h
      split at h
      · cases h
      · cases h
        exact hkeep txn session (.finished .aborted) rfl fun _ _ => by decide

/-- A restore that is not too late ends well, however many conversations are pinned. -/
theorem PinsInv.restore_succeeds (hinv : PinsInv w) {id : ℕ} {seen : Conversation}
    (hsession : w.requests txn = some session) (hrestore : session.request = .restore id)
    (hphase : session.phase = .read seen)
    (hdue : seen.deletionDueAt.all (· ≤ session.now) = false) :
    ∃ w', run (Pins.step retention) w [.advance txn, .advance txn, .advance txn] = some w' ∧
      w'.requests txn = some { session with phase := .finished .ok } := by
  have hrow : session.request.locksRow = true := by rw [hrestore]; rfl
  have hid : session.request.conversation = id := by rw [hrestore]; rfl
  obtain ⟨row, hget, hpending⟩ := (hinv.sessions txn session hsession).locked seen
    hrow (.inl hphase)
  rw [hid] at hget
  have hfree : row.Free txn := by
    intro p hp
    obtain rfl : (txn, seen) = p := Option.eq_some_unique hpending hp
    rfl
  have hwrite : ∀ (session' : Session) (f : Conversation → Conversation) (w₁ : World),
      w₁.conversations = w.conversations → w₁.write txn session' id f =
        some ({ w₁ with conversations := w.conversations.set (row.write txn (f seen)) }.goto txn
          session' .written) := by
    intro session' f w₁ hsame
    rw [World.write, hsame, ReadCommitted.update, hget]
    simp only [if_pos hfree, Row.visible_of_pending hpending, Option.map_some]
  have hadvance : ∀ (w₁ : World) (phase : Phase), w₁.requests txn = some { session with phase } →
      Pins.step retention w₁ (.advance txn) =
        w₁.restoreConversation txn { session with phase } id := by
    intro w₁ phase hsession'
    simp only [Pins.step, hsession', World.next, hrestore]
  -- the count, the write and the commit
  obtain ⟨n, hcount⟩ : ∃ n, Pins.step retention w (.advance txn) =
      some (w.goto txn session (.counted seen n)) := by
    rw [hadvance w session.phase hsession]
    simp only [World.restoreConversation, hphase, hdue, Bool.false_eq_true, if_false]
    exact ⟨_, rfl⟩
  obtain ⟨w₂, hwritten, hrequest⟩ : ∃ w₂, Pins.step retention
      (w.goto txn session (.counted seen n)) (.advance txn) = some w₂ ∧
        w₂.requests txn = some { session with phase := .written } := by
    rw [hadvance _ (.counted seen n) (Function.update_self ..)]
    simp only [World.restoreConversation, hwrite _ _ (w.goto ..) rfl]
    exact ⟨_, rfl, Function.update_self ..⟩
  have hcommit : Pins.step retention w₂ (.advance txn) = some (w₂.commit txn
      { session with phase := .written }) := by
    rw [hadvance w₂ .written hrequest]
    rfl
  exact ⟨_, run_cons_iff.mpr ⟨_, hcount, run_cons_iff.mpr ⟨_, hwritten,
    run_cons_iff.mpr ⟨_, hcommit, rfl⟩⟩⟩, Function.update_self ..⟩

/-- A request that sets a marker changes no `updated_at`. -/
theorem PinsInv.updatedAt_of_marks {action : Action} (hinv : PinsInv w)
    (hsession : w.requests action.txn = some session) (hmarks : session.request.marks = true)
    (h : Pins.step retention w action = some w') (id : ℕ) : w'.updatedAt id = w.updatedAt id := by
  have hupdate : ∀ {k : ℕ} {f : Conversation → Conversation} {version : Conversation}
      {conversations : Store Conversation},
      ReadCommitted.update action.txn k f w.conversations = some (version, conversations) →
      (conversations.get? id).bind (·.committed) =
        (w.conversations.get? id).bind (·.committed) := by
    intro k f version conversations hwritten
    obtain ⟨row, hget, -, -, rfl⟩ := update_cases hwritten
    rw [get?_set_write hget]
    by_cases hid : id = k
    · rw [if_pos hid, hid, hget]
      rfl
    · rw [if_neg hid]
  have hrollback : ((ReadCommitted.rollback action.txn w.conversations).get? id).bind
      (·.committed) = (w.conversations.get? id).bind (·.committed) := by
    rw [get?_rollback]
    cases w.conversations.get? id with
    | none => rfl
    | some => exact Row.committed_rollback
  cases action with
  | start txn =>
    simp only [Action.txn] at hsession
    simp [Pins.step, hsession] at h
  | abort txn =>
    simp only [Action.txn] at hsession
    simp only [Pins.step, hsession] at h
    split at h
    · cases h
    · cases h
      exact congrArg _ hrollback
  | advance txn =>
    simp only [Action.txn] at hsession
    simp only [Pins.step, hsession] at h
    have hchange := World.next_cases (hinv.sessions txn session hsession).counting h
    cases hchange with
    | lockUser | readRow | count | skip => rfl
    | lockRow _ _ hlocked => exact congrArg _ (hupdate hlocked)
    | write _ _ _ _ hwritten => exact congrArg _ (hupdate hwritten)
    | rollback => exact congrArg _ hrollback
    | commit =>
      rw [World.updatedAt, World.updatedAt]
      simp only [World.commit, World.finish, World.goto, get?_commit]
      cases hget : w.conversations.get? id with
      | none => rfl
      | some row =>
        obtain ⟨held, hpending⟩ | hnot := row.held_or_not txn
        · obtain ⟨session', old, hsession', -, hold, hholds⟩ :=
            hinv.held id row txn held hget hpending
          obtain rfl : session = session' := Option.eq_some_unique hsession hsession'
          have hkept : held.updatedAt = old.updatedAt := hholds.writes.2 hmarks
          simp only [Option.map_some, Option.bind_some, Row.commit_of_pending hpending, hold, hkept]
        · simp only [Option.map_some, Option.bind_some, Row.commit_of_not_held hnot]

/-- **The pin limit.** In every run of pins, unpins, favorites, deletions and restores of one user,
the pinned conversations stay within the limit, a restore never ends with the error of the pins and
succeeds from the moment it has read a conversation that can still be restored, and no request that
sets a marker changes an `updated_at`. -/
theorem pinLimit {start : World} {actions : List Action} (hstart : start.Quiet)
    (hrun : run (Pins.step retention) start actions = some w) :
    w.pinnedConversations ≤ pinnedConversationLimit ∧
    (∀ txn session id, w.requests txn = some session → session.request = .restore id →
      session.phase ≠ .finished .pinLimitReached ∧
      ∀ seen, session.phase = .read seen → seen.deletionDueAt.all (· ≤ session.now) = false →
        ∃ w', run (Pins.step retention) w [.advance txn, .advance txn, .advance txn] = some w' ∧
          w'.requests txn = some { session with phase := .finished .ok }) ∧
    ∀ action session w', w.requests action.txn = some session → session.request.marks = true →
      Pins.step retention w action = some w' → ∀ id, w'.updatedAt id = w.updatedAt id := by
  let Inv (w : World) : Prop := PinsInv w ∧ RestoresFree w
  have hstep : ∀ w action w', Inv w → Pins.step retention w action = some w' → Inv w' :=
    fun w action w' hinv h => ⟨hinv.1.step h, hinv.2.step hinv.1 h⟩
  have hfirst : RestoresFree start := by
    intro txn session id hsession
    rw [hstart.requests] at hsession
    cases hsession
  obtain ⟨hinv, hfree⟩ : Inv w := run_invariant hstep ⟨hstart.inv, hfirst⟩ hrun
  refine ⟨?_, ?_, ?_⟩
  · have hlimit := hinv.limit
    rw [← pinnedConversations_eq] at hlimit
    exact_mod_cast hlimit
  · intro txn session id hsession hrestore
    exact ⟨hfree txn session id hsession hrestore, fun seen hphase hdue =>
      hinv.restore_succeeds hsession hrestore hphase hdue⟩
  · intro action session w' hsession hmarks h id
    exact hinv.updatedAt_of_marks hsession hmarks h id

end runs

/-- Ten pinned conversations, and a deleted one whose pin has survived. -/
def elevenPins : World where
  conversations :=
    { rows := (List.range 11).map fun id =>
        ⟨id, some ⟨if id = 10 then some 5 else none, if id =
          10 then some 100 else none, some 1, none,
          1⟩, none⟩
      next := 11
      nodup := by decide
      lt_next := by decide }
  pinLock := none
  requests := fun _ => none

theorem quiet_elevenPins : elevenPins.Quiet where
  committed id row hget := by
    have hall : ∀ row ∈ elevenPins.conversations.rows,
        row.committed.isSome = true ∧ row.pending = none := by decide
    obtain ⟨hsome, hpending⟩ := hall row (Table.mem_of_get? hget)
    exact ⟨Option.isSome_iff_exists.mp hsome, hpending⟩
  requests _ := rfl
  limit := by decide

/-- The deleted conversation is restored, and an eleventh pin is refused. -/
theorem pinLimit_elevenPins :
    ∃ w, run (step 1000) elevenPins [.start 0 (.restore 10) 50, .start 1 (.setPinned 10 true) 51,
        .advance 0, .advance 0, .advance 0, .advance 0, .advance 0, .advance 1, .advance 1,
        .advance 1, .advance 1] = some w ∧
      ((w.requests 0).any (·.phase = .finished .ok) ∧
        (w.requests 1).any (·.phase = .finished .pinLimitReached)) ∧
      w.pinnedConversations ≤ pinnedConversationLimit := by
  obtain ⟨w, hrun, hphases⟩ :
      ∃ w, run (step 1000) elevenPins [.start 0 (.restore 10) 50, .start 1 (.setPinned 10 true) 51,
          .advance 0, .advance 0, .advance 0, .advance 0, .advance 0, .advance 1, .advance 1,
          .advance 1, .advance 1] = some w ∧
        ((w.requests 0).any (·.phase = .finished .ok) ∧
          (w.requests 1).any (·.phase = .finished .pinLimitReached)) :=
    exists_run (by decide +kernel)
  exact ⟨w, hrun, hphases, (pinLimit quiet_elevenPins hrun).1⟩

end IChat.Conversations.Pins
