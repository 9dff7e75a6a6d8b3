import IChat.Conversations.Inputs
import IChat.Conversations.Service
import IChat.General.Except

/-!
# What an accepted request does

The three requests of a user, read from their end: a request that has committed has passed its
guards, has planned the attachments of its message, and has written exactly one of two things.

* `Turn`: a new user message with its run, after messages were archived. Submitting archives none,
  editing the target and all that follows.
* `Rerun`: a new run for a user message that stays, after all that follows was archived.

`submitUserMessage_eq_ok`, `editUserMessage_eq_ok` and `regenerateFromMessage_eq_ok` are the three
inversions. Nothing later unfolds a request.
-/

namespace IChat.Conversations

open Files Transcript

namespace ConversationTables

variable {db db' : ConversationTables} {conversationId messageId : ℕ}

theorem getUnarchivedMessage_eq_ok {message : MessageRow}
    (h : db.getUnarchivedMessage conversationId messageId = .ok message) :
    message ∈ db.messages ∧ message.conversationId = conversationId ∧
      message.archivedAt = none := by
  unfold getUnarchivedMessage at h
  split at h
  · cases h
  · next hget =>
    obtain ⟨hguard, h⟩ := ite_error_eq_ok_iff.mp h
    cases h
    push Not at hguard
    exact ⟨Table.mem_of_get? hget, hguard⟩

theorem getUnarchivedMessage_id {message : MessageRow}
    (h : db.getUnarchivedMessage conversationId messageId = .ok message) :
    message.id = messageId := by
  unfold getUnarchivedMessage at h
  split at h
  · cases h
  · next hget =>
    obtain ⟨-, h⟩ := ite_error_eq_ok_iff.mp h
    cases h
    exact Table.key_of_get? hget

theorem ensureNoActiveRun_eq_ok (h : db.ensureNoActiveRun conversationId = .ok ()) :
    ¬db.HasActiveRun conversationId :=
  (ite_error_eq_ok_iff.mp h).1

theorem regenerateAnchor_eq_ok {anchor : MessageRow}
    (h : db.regenerateAnchor conversationId messageId = .ok anchor) :
    anchor ∈ db.messages ∧ anchor.conversationId = conversationId ∧ anchor.archivedAt = none ∧
      anchor.role ≠ .assistant := by
  unfold regenerateAnchor at h
  obtain ⟨target, htarget, h⟩ := bind_eq_ok_iff.mp h
  split_ifs at h with hrole
  · cases h
    obtain ⟨hmem, hhere, hshown⟩ := getUnarchivedMessage_eq_ok htarget
    exact ⟨hmem, hhere, hshown, hrole⟩
  · split at h
    · cases h
    · obtain ⟨found, hfound, h⟩ := bind_eq_ok_iff.mp h
      obtain ⟨hguard, h⟩ := ite_error_eq_ok_iff.mp h
      cases h
      obtain ⟨hmem, hhere, hshown⟩ := getUnarchivedMessage_eq_ok hfound
      refine ⟨hmem, hhere, hshown, ?_⟩
      rw [not_not.mp hguard]
      nofun

/-- A regeneration starts from the message that is asked for, or from the question it answers. -/
theorem regenerateAnchor_target {anchor : MessageRow}
    (h : db.regenerateAnchor conversationId messageId = .ok anchor) :
    ∃ target ∈ db.messages, target.id = messageId ∧ target.conversationId = conversationId ∧
      target.archivedAt = none ∧ (target.role ≠ .assistant → anchor = target) ∧
      (target.role = .assistant →
        ∃ run ∈ db.runs, target.runId = some run.id ∧ run.userMessageId = anchor.id) := by
  unfold regenerateAnchor at h
  obtain ⟨target, htarget, h⟩ := bind_eq_ok_iff.mp h
  obtain ⟨hmem, hhere, hshown⟩ := getUnarchivedMessage_eq_ok htarget
  refine ⟨target, hmem, getUnarchivedMessage_id htarget, hhere, hshown, ?_⟩
  split_ifs at h with hrole
  · cases h
    exact ⟨fun _ => rfl, fun hassistant => absurd hassistant hrole⟩
  · split at h
    · cases h
    · next run hrun =>
      obtain ⟨found, hfound, h⟩ := bind_eq_ok_iff.mp h
      obtain ⟨-, h⟩ := ite_error_eq_ok_iff.mp h
      cases h
      obtain ⟨runId, hrunId, hget⟩ := Option.bind_eq_some_iff.mp hrun
      refine ⟨fun hne => absurd (not_not.mp hrole) hne, fun _ =>
        ⟨run, Table.mem_of_get? hget, ?_, ?_⟩⟩
      · rw [hrunId, Table.key_of_get? hget]
      · exact (getUnarchivedMessage_id hfound).symm

/-- Archiving nothing changes nothing. -/
theorem archiveMessages_false (now : ℕ) :
    db.archiveMessages conversationId (fun _ => false) now = db := by
  unfold archiveMessages Table.map
  simp

end ConversationTables

namespace Requests

variable {loads : String → Option Json} {s : Settings} {request : RunRequest} {db db' : FileDb}
  {messageId : ℕ} {loaded : List FileAsset}

/-- The user of a request sees its conversation. -/
def SeesConversation (request : RunRequest) (db : FileDb) : Prop :=
  ∃ c ∈ db.conversations, c.id = request.conversationId ∧ c.userId = request.userId ∧
    c.deletedAt = none

theorem getVisibleConversation_eq_ok {conversation : Conversation}
    (h : db.getVisibleConversation request.userId request.conversationId = .ok conversation) :
    SeesConversation request db ∧ conversation.id = request.conversationId := by
  unfold FileDb.getVisibleConversation at h
  obtain ⟨-, h⟩ := ite_error_eq_ok_iff.mp h
  split at h
  · cases h
  · next hget =>
    obtain ⟨hguard, h⟩ := ite_error_eq_ok_iff.mp h
    cases h
    push Not at hguard
    have hid := Table.key_of_get? hget
    exact ⟨⟨_, Table.mem_of_get? hget, hid, hguard⟩, hid⟩

theorem editTarget_eq_ok {target : MessageRow} (h : db.editTarget request messageId = .ok target) :
    SeesConversation request db ∧ ¬db.HasActiveRun request.conversationId ∧
      target ∈ db.messages ∧ target.conversationId = request.conversationId ∧
      target.archivedAt = none ∧ target.role = .user := by
  unfold FileDb.editTarget at h
  obtain ⟨conversation, hconversation, h⟩ := bind_eq_ok_iff.mp h
  obtain ⟨hsees, hid⟩ := getVisibleConversation_eq_ok hconversation
  obtain ⟨found, hfound, h⟩ := bind_eq_ok_iff.mp h
  obtain ⟨hrole, h⟩ := ite_error_eq_ok_iff.mp h
  obtain ⟨⟨⟩, hidle, h⟩ := bind_eq_ok_iff.mp h
  cases h
  obtain ⟨hmem, hhere, hshown⟩ := ConversationTables.getUnarchivedMessage_eq_ok hfound
  rw [hid] at hhere hidle
  exact ⟨hsees, ConversationTables.ensureNoActiveRun_eq_ok hidle, hmem, hhere, hshown,
    not_not.mp hrole⟩

theorem editTarget_id {target : MessageRow} (h : db.editTarget request messageId = .ok target) :
    target.id = messageId := by
  unfold FileDb.editTarget at h
  obtain ⟨conversation, -, h⟩ := bind_eq_ok_iff.mp h
  obtain ⟨found, hfound, h⟩ := bind_eq_ok_iff.mp h
  obtain ⟨-, h⟩ := ite_error_eq_ok_iff.mp h
  obtain ⟨⟨⟩, -, h⟩ := bind_eq_ok_iff.mp h
  cases h
  exact ConversationTables.getUnarchivedMessage_id hfound

theorem regenerateTarget_anchor {anchor : MessageRow}
    (h : db.regenerateTarget request messageId = .ok anchor) :
    db.regenerateAnchor request.conversationId messageId = .ok anchor := by
  unfold FileDb.regenerateTarget at h
  obtain ⟨conversation, hconversation, h⟩ := bind_eq_ok_iff.mp h
  obtain ⟨found, hfound, h⟩ := bind_eq_ok_iff.mp h
  obtain ⟨⟨⟩, -, h⟩ := bind_eq_ok_iff.mp h
  cases h
  rw [← (getVisibleConversation_eq_ok hconversation).2]
  exact hfound

theorem regenerateTarget_eq_ok {anchor : MessageRow}
    (h : db.regenerateTarget request messageId = .ok anchor) :
    SeesConversation request db ∧ ¬db.HasActiveRun request.conversationId ∧
      anchor ∈ db.messages ∧ anchor.conversationId = request.conversationId ∧
      anchor.archivedAt = none ∧ anchor.role ≠ .assistant := by
  unfold FileDb.regenerateTarget at h
  obtain ⟨conversation, hconversation, h⟩ := bind_eq_ok_iff.mp h
  obtain ⟨hsees, hid⟩ := getVisibleConversation_eq_ok hconversation
  obtain ⟨found, hfound, h⟩ := bind_eq_ok_iff.mp h
  obtain ⟨⟨⟩, hidle, h⟩ := bind_eq_ok_iff.mp h
  cases h
  obtain ⟨hmem, hhere, hshown, hrole⟩ := ConversationTables.regenerateAnchor_eq_ok hfound
  rw [hid] at hhere hidle
  exact ⟨hsees, ConversationTables.ensureNoActiveRun_eq_ok hidle, hmem, hhere, hshown, hrole⟩

/-! ### The two effects -/

/-- The guard of the image context has let the messages through that are not archived. -/
def ImagesFit (loads : String → Option Json) (request : RunRequest) (p : ℕ → Bool)
    (db : ConversationTables) : Prop :=
  ∃ facts, db.imageContext loads request.conversationId = .ok facts ∧
    validateImageContext request.supportsImageInput (facts.filter fun m => !p m.position) = .ok ()

/-- A new user message with its run, after the messages whose position satisfies a test were
archived: a user message and all that follow it, if any. -/
structure Turn (loads : String → Option Json) (request : RunRequest) (content : String)
    (quoteExcerpt : Option String) (p : ℕ → Bool) (ids : List ℕ) (loaded : List FileAsset)
    (plan : AttachmentPlan) (db db' : FileDb) : Prop where
  sees : SeesConversation request db
  idle : ¬db.HasActiveRun request.conversationId
  upper : ∀ x y, x ≤ y → p x = true → p y = true
  cut : ∀ x, p x = true → ∃ target ∈ db.messages, target.conversationId = request.conversationId ∧
    target.archivedAt = none ∧ target.role = .user ∧ p target.position = true ∧ target.position ≤ x
  images : ImagesFit loads request p db.toConversationTables
  accepted : ∃ legacy, Accepted db loaded (FileDb.attachmentRequest request
    (modelContent quoteExcerpt content) ids (loaded.map FileAsset.id) legacy) plan
  inserted : FileDb.insertTurn request content quoteExcerpt plan { db with
    toConversationTables := db.archiveMessages request.conversationId p request.now } = .ok db'

/-- A new run for a user message, after the messages behind it were archived. -/
structure Rerun (loads : String → Option Json) (request : RunRequest) (anchor : MessageRow)
    (loaded : List FileAsset) (plan : AttachmentPlan) (db db' : FileDb) : Prop where
  sees : SeesConversation request db
  idle : ¬db.HasActiveRun request.conversationId
  mem : anchor ∈ db.messages
  here : anchor.conversationId = request.conversationId
  shown : anchor.archivedAt = none
  role : anchor.role ≠ .assistant
  images : ImagesFit loads request (anchor.position ≤ ·) db.toConversationTables
  accepted : ∃ legacy, Accepted db loaded (FileDb.attachmentRequest request
    (modelContent anchor.replyQuoteExcerpt anchor.content) (loaded.map FileAsset.id)
    (loaded.map FileAsset.id) legacy) plan
  result : ∃ tables,
    (db.archiveMessages request.conversationId (anchor.position < ·) request.now).insertRun request
      anchor.id plan.blocks = .ok tables ∧
    db' = { db with
      toConversationTables := { tables with
        messages := tables.messages.set { anchor with runId := some db.runs.next } } }

/-! ### The three inversions -/

/-- The facts before a position are those that its archiving leaves. -/
theorem before_eq_filter (facts : ImageContextFacts) (position : ℕ) :
    facts.before position = facts.filter fun m => !decide (position ≤ m.position) := by
  refine List.filter_congr fun m _ => ?_
  rw [← decide_not, decide_eq_decide, not_le]

theorem submitUserMessage_eq_ok {content : String} {attachmentIds : List ℕ}
    {replyQuote : Option ReplyQuoteRequest}
    (h : db.submitUserMessage loads s request content attachmentIds replyQuote = .ok db') :
    ∃ quoteExcerpt plan,
      Turn loads request content quoteExcerpt (fun _ => false) attachmentIds [] plan db db' := by
  unfold FileDb.submitUserMessage at h
  obtain ⟨conversation, hconversation, h⟩ := bind_eq_ok_iff.mp h
  obtain ⟨hsees, hid⟩ := getVisibleConversation_eq_ok hconversation
  obtain ⟨⟨⟩, hidle, h⟩ := bind_eq_ok_iff.mp h
  obtain ⟨facts, hfacts, h⟩ := bind_eq_ok_iff.mp h
  obtain ⟨⟨⟩, himages, h⟩ := bind_eq_ok_iff.mp h
  obtain ⟨quoteExcerpt, h⟩ : ∃ quoteExcerpt, (db.prepareAttachmentPlan s []
      (FileDb.attachmentRequest request (modelContent quoteExcerpt content) attachmentIds [] []) >>=
        fun plan => db.insertTurn request content quoteExcerpt plan) = .ok db' := by
    cases replyQuote with
    | none => exact ⟨none, h⟩
    | some =>
      obtain ⟨excerpt, -, h⟩ := bind_eq_ok_iff.mp h
      exact ⟨excerpt, h⟩
  obtain ⟨plan, hplan, h⟩ := bind_eq_ok_iff.mp h
  rw [hid] at hfacts hidle
  refine ⟨quoteExcerpt, plan, hsees, ConversationTables.ensureNoActiveRun_eq_ok hidle,
    fun _ _ _ hfalse => absurd hfalse Bool.false_ne_true,
    fun _ hfalse => absurd hfalse Bool.false_ne_true, ⟨facts, hfacts, by simpa using himages⟩,
    ⟨[], accepted_of_prepareAttachmentPlan hplan⟩, ?_⟩
  rw [ConversationTables.archiveMessages_false]
  exact h

theorem editUserMessage_eq_ok {newContent : String} {attachmentIds : Option (List ℕ)}
    (h : db.editUserMessage loads s request messageId newContent attachmentIds loaded = .ok db') :
    ∃ target plan turned, db.editTarget request messageId = .ok target ∧
      Turn loads request newContent target.replyQuoteExcerpt (target.position ≤ ·)
        (attachmentIds.getD (loaded.map FileAsset.id)) loaded plan db turned ∧
      let held := plan.files.map (·.bind db.messages.next request.now) ++ loaded
      db' = (held.map FileAsset.id).dedup.foldl (FileDb.refreshDetachedState held request.now)
        turned := by
  unfold FileDb.editUserMessage at h
  obtain ⟨target, htarget, h⟩ := bind_eq_ok_iff.mp h
  obtain ⟨hsees, hidle, hmem, hhere, hshown, hrole⟩ := editTarget_eq_ok htarget
  obtain ⟨facts, hfacts, h⟩ := bind_eq_ok_iff.mp h
  obtain ⟨⟨⟩, -, h⟩ := bind_eq_ok_iff.mp h
  obtain ⟨⟨⟩, himages, h⟩ := bind_eq_ok_iff.mp h
  obtain ⟨-, h⟩ := ite_error_eq_ok_iff.mp h
  obtain ⟨plan, hplan, h⟩ := bind_eq_ok_iff.mp h
  obtain ⟨turned, hturned, h⟩ := bind_eq_ok_iff.mp h
  cases h
  rw [before_eq_filter] at himages
  refine ⟨target, plan, turned, htarget, ⟨hsees, hidle, fun x y hle hx => ?_, fun x hx => ?_,
    ⟨facts, hfacts, himages⟩, ⟨_, accepted_of_prepareAttachmentPlan hplan⟩, hturned⟩, rfl⟩
  · rw [decide_eq_true_eq] at hx ⊢
    exact hx.trans hle
  · rw [decide_eq_true_eq] at hx
    exact ⟨target, hmem, hhere, hshown, hrole, decide_eq_true le_rfl, hx⟩

theorem regenerateFromMessage_eq_ok
    (h : db.regenerateFromMessage loads s request messageId loaded = .ok db') :
    ∃ anchor plan, db.regenerateTarget request messageId = .ok anchor ∧
      Rerun loads request anchor loaded plan db db' := by
  unfold FileDb.regenerateFromMessage at h
  obtain ⟨anchor, hanchor, h⟩ := bind_eq_ok_iff.mp h
  obtain ⟨hsees, hidle, hmem, hhere, hshown, hrole⟩ := regenerateTarget_eq_ok hanchor
  obtain ⟨facts, hfacts, h⟩ := bind_eq_ok_iff.mp h
  obtain ⟨⟨⟩, -, h⟩ := bind_eq_ok_iff.mp h
  obtain ⟨⟨⟩, himages, h⟩ := bind_eq_ok_iff.mp h
  obtain ⟨-, h⟩ := ite_error_eq_ok_iff.mp h
  obtain ⟨plan, hplan, h⟩ := bind_eq_ok_iff.mp h
  obtain ⟨tables, htables, h⟩ := bind_eq_ok_iff.mp h
  cases h
  rw [before_eq_filter] at himages
  exact ⟨anchor, plan, hanchor, hsees, hidle, hmem, hhere, hshown, hrole,
    ⟨facts, hfacts, himages⟩, ⟨_, accepted_of_prepareAttachmentPlan hplan⟩, tables, htables, rfl⟩

end Requests

end IChat.Conversations
