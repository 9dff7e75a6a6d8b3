import IChat.Chat.Histories
import IChat.Chat.Purges

/-!
# What a transaction finds at its commit

A transaction that holds a conversation has read assets without a lock. `SessionOk` says what its
reads have to do with the database until it commits: an edit and a regeneration still hold the rows
of the assets of their message, a purge has read what only its conversation attaches.

No step of another party disturbs a conversation that is held (`Undisturbed`), one lemma for each
kind of step; and what is not disturbed stays so (`SessionOk.undisturbed`).
-/

namespace IChat.Chat

open Files Conversations

variable {db db' : FileDb} {conversationId : ℕ}

/-! ### Sessions -/

/-- What holds of a transaction that holds a conversation. -/
inductive SessionOk (conversationId : ℕ) (db : FileDb) : Session → Prop
  | edit {request : RunRequest} {newContent : String} {attachmentIds : Option (List ℕ)}
      {target : MessageRow} (shown : ShownIn db.toConversationTables target)
      (here : target.conversationId = conversationId)
      (request_here : request.conversationId = conversationId) :
      SessionOk conversationId db (.edit request target.id newContent attachmentIds
        (db.currentAttachmentFiles target.id))
  | regenerate {request : RunRequest} {target anchor : MessageRow}
      (target_shown : ShownIn db.toConversationTables target)
      (target_here : target.conversationId = conversationId)
      (shown : ShownIn db.toConversationTables anchor)
      (here : anchor.conversationId = conversationId)
      (request_here : request.conversationId = conversationId)
      (self : target.role ≠ .assistant → anchor = target)
      (answered : target.role = .assistant →
        ∀ run ∈ db.runs, target.runId = some run.id → run.userMessageId = anchor.id) :
      SessionOk conversationId db (.regenerate request target.id
        (db.currentAttachmentFiles anchor.id))
  | purge {now : ℕ} {unread : List ℕ} {files : List FileAsset}
      (exclusive : ∀ file ∈ files, ∀ c, AttachedTo db c file.id → c = conversationId)
      (covered : ∀ id, AttachedTo db conversationId id → id ∈ unread ∨ id ∈ files.map FileAsset.id)
      (started : ∀ file ∈ files, file.deletionStartedAt ≠ none → db.Started file.id)
      (old : ∀ file ∈ files, file.id < db.files.next)
      (bound : ∀ file ∈ files, ∀ row, db.files.get? file.id = some row → row.boundAt ≠ none) :
      SessionOk conversationId db (.purge now unread files)

/-- An asset of a message's attachments. -/
theorem mem_currentAttachmentFiles {messageId : ℕ} {file : FileAsset}
    (h : file ∈ db.currentAttachmentFiles messageId) :
    db.files.get? file.id = some file ∧
      ∃ a ∈ db.attachments, a.messageId = messageId ∧ a.fileId = some file.id := by
  obtain ⟨a, ha, hfile⟩ := List.mem_filterMap.mp h
  rw [List.mem_insertionSort, List.mem_filter, decide_eq_true_eq] at ha
  obtain ⟨id, hid, hget⟩ := Option.bind_eq_some_iff.mp hfile
  have hkey : file.id = id := Table.key_of_get? hget
  rw [hkey]
  exact ⟨hget, a, ha.1, ha.2, hid⟩

/-- The assets of a message that is shown are held as they are, and shown. -/
theorem shownTo_of_mem_currentAttachmentFiles {m : MessageRow} {file : FileAsset}
    (hm : ShownIn db.toConversationTables m) (h : file ∈ db.currentAttachmentFiles m.id) :
    ShownTo db m.conversationId file.id := by
  obtain ⟨-, a, ha, hmessage, hid⟩ := mem_currentAttachmentFiles h
  exact ⟨a, ha, hid, m, hm, hmessage.symm, rfl⟩

/-! ### What is not disturbed -/

/-- What no step takes back of a row: that it is bound, and to which message, and that its deletion
has begun. Only a purge forgets the message, and then deletes the asset. -/
structure RowKept (row row' : FileAsset) : Prop where
  bound : row.boundAt ≠ none → row'.boundAt ≠ none
  started : row.deletionStartedAt ≠ none → row'.deletionStartedAt ≠ none
  source : row.boundAt ≠ none → row'.sourceMessageId = row.sourceMessageId ∨
    row'.sourceMessageId = none ∧ row'.deletionStartedAt ≠ none

theorem RowKept.refl (row : FileAsset) : RowKept row row :=
  ⟨fun hbound => hbound, fun hstarted => hstarted, fun _ => .inl rfl⟩

/-- Nothing is written that a transaction relies on which holds the conversation. -/
structure Undisturbed (conversationId : ℕ) (db db' : FileDb) : Prop where
  messages : ∀ m, m.conversationId = conversationId → (m ∈ db'.messages ↔ m ∈ db.messages)
  runs : ∀ r ∈ db'.runs,
    (∃ r₀ ∈ db.runs, r₀.id = r.id ∧ r₀.userMessageId = r.userMessageId) ∨ db.runs.next ≤ r.id
  attachments : ∀ m, ShownIn db.toConversationTables m → m.conversationId = conversationId →
    (db'.attachments.filter fun a => a.messageId = m.id) =
      db.attachments.filter fun a => a.messageId = m.id
  shownRows : ∀ id, ShownTo db conversationId id → db'.files.get? id = db.files.get? id
  attached : ∀ c id, AttachedTo db' c id → AttachedTo db c id ∨
    c ≠ conversationId ∧ ∃ row, db.files.get? id = some row ∧ row.boundAt = none
  rows : ∀ id row', db'.files.get? id = some row' → id < db.files.next →
    ∃ row, db.files.get? id = some row ∧ RowKept row row'
  next : db.files.next ≤ db'.files.next

namespace Undisturbed

theorem shownIn (h : Undisturbed conversationId db db') {m : MessageRow}
    (hm : ShownIn db.toConversationTables m) (hhere : m.conversationId = conversationId) :
    ShownIn db'.toConversationTables m :=
  ⟨(h.messages m hhere).mpr hm.1, hm.2⟩

/-- A message that is shown keeps its assets, row by row. -/
theorem currentAttachmentFiles (h : Undisturbed conversationId db db') {m : MessageRow}
    (hm : ShownIn db.toConversationTables m) (hhere : m.conversationId = conversationId) :
    db'.currentAttachmentFiles m.id = db.currentAttachmentFiles m.id := by
  unfold FileDb.currentAttachmentFiles
  rw [h.attachments m hm hhere]
  refine List.filterMap_congr fun a ha => ?_
  rw [List.mem_insertionSort, List.mem_filter, decide_eq_true_eq] at ha
  cases hid : a.fileId with
  | none => rfl
  | some id => exact h.shownRows id ⟨a, ha.1, hid, m, hm, ha.2.symm, hhere⟩

end Undisturbed

/-- **Sessions.** A transaction that is not disturbed still has what it relies on. -/
theorem SessionOk.undisturbed {session : Session} (h : SessionOk conversationId db session)
    (hdb : Undisturbed conversationId db db')
    (hruns : ∀ m ∈ db.messages, ∀ id ∈ m.runId, id < db.runs.next) :
    SessionOk conversationId db' session := by
  cases h with
  | edit shown here request_here =>
    rw [← hdb.currentAttachmentFiles shown here]
    exact .edit (hdb.shownIn shown here) here request_here
  | @regenerate request target anchor target_shown target_here shown here request_here self
      answered =>
    rw [← hdb.currentAttachmentFiles shown here]
    refine .regenerate (hdb.shownIn target_shown target_here) target_here (hdb.shownIn shown here)
      here request_here self fun hrole run hrun hid => ?_
    rcases hdb.runs run hrun with ⟨run₀, hrun₀, hid₀, huser⟩ | hnew
    · rw [← huser]
      exact answered hrole run₀ hrun₀ (by rw [hid, hid₀])
    · have hlt := hruns target target_shown.1 run.id hid
      omega
  | purge exclusive covered started old bound =>
    refine .purge (fun file hfile c hc => ?_) (fun id hid => ?_) (fun file hfile hstarted => ?_)
      (fun file hfile => (old file hfile).trans_le hdb.next) fun file hfile row' hrow' => ?_
    · rcases hdb.attached c file.id hc with hold | ⟨-, row, hrow, hunbound⟩
      · exact exclusive file hfile c hold
      · exact absurd hunbound (bound file hfile row hrow)
    · rcases hdb.attached conversationId id hid with hold | ⟨hne, -⟩
      · exact covered id hold
      · exact absurd rfl hne
    · intro row' hrow'
      obtain ⟨row, hrow, hkept⟩ := hdb.rows _ row' hrow' (old file hfile)
      exact hkept.started (started file hfile hstarted row hrow)
    · obtain ⟨row, hrow, hkept⟩ := hdb.rows _ row' hrow' (old file hfile)
      exact hkept.bound (bound file hfile row hrow)

/-! ### The files domain -/

theorem runs_of_eq (h : db'.runs = db.runs) : ∀ r ∈ db'.runs,
    (∃ r₀ ∈ db.runs, r₀.id = r.id ∧ r₀.userMessageId = r.userMessageId) ∨ db.runs.next ≤ r.id :=
  fun r hr => .inl ⟨r, h ▸ hr, rfl, rfl⟩

/-- Attachments that were there are in the conversations in which they were. -/
theorem attachedTo_of_subset (hmessages : db'.messages = db.messages) {c id : ℕ}
    (hattachments : ∀ a ∈ db'.attachments, a.fileId = some id → a ∈ db.attachments)
    (h : AttachedTo db' c id) : AttachedTo db c id := by
  obtain ⟨a, ha, hid, m, hm, hin⟩ := h
  exact ⟨a, hattachments a ha hid, hid, m, hmessages ▸ hm, hin⟩

/-- The files domain disturbs nobody. -/
theorem Attached.undisturbed_fileEffect (h : Attached db) (heffect : FileEffect db db') :
    Undisturbed conversationId db db' := by
  have hmessages : db'.messages = db.messages :=
    congrArg ConversationTables.messages heffect.tables
  have hruns : db'.runs = db.runs := congrArg ConversationTables.runs heffect.tables
  have hsame : ∀ m : MessageRow, m.conversationId = conversationId →
      (m ∈ db'.messages ↔ m ∈ db.messages) := fun m _ => by rw [hmessages]
  cases heffect with
  | same hfiles =>
    refine ⟨hsame, runs_of_eq hruns, fun _ _ _ => by rw [hfiles.attachments],
      fun _ _ => by rw [hfiles.files], fun c id hc => .inl ?_, fun id row' hrow' _ => ?_,
      by rw [hfiles.files]⟩
    · exact attachedTo_of_subset hmessages (fun a ha _ => hfiles.attachments ▸ ha) hc
    · rw [hfiles.files] at hrow'
      exact ⟨row', hrow', .refl row'⟩
  | deletions hstarted =>
    refine ⟨hsame, runs_of_eq hruns, fun _ _ _ => by rw [hstarted.attachments],
      fun id hid => ?_, fun c id hc => .inl ?_, fun id row' hrow' _ => ?_, hstarted.next.ge⟩
    · rcases hstarted.row id with hrow | ⟨hgone, -⟩
      · exact hrow
      · exact absurd hgone (h.not_unboundOrDetached hid.currentReference)
    · exact attachedTo_of_subset hmessages (fun a ha _ => hstarted.attachments ▸ ha) hc
    · obtain ⟨row, hrow, heq, -⟩ := hstarted.get?_eq hrow'
      refine ⟨row, hrow, fun hbound => by rw [heq]; exact hbound, fun hgone => ?_,
        fun _ => .inl (by rw [heq])⟩
      rcases hstarted.row id with hrow₀ | ⟨-, _, _, -, hmarked⟩
      · rw [hrow₀, hrow] at hrow'
        rw [← Option.some.inj hrow']
        exact hgone
      · rw [hmarked] at hrow'
        rw [← Option.some.inj hrow']
        nofun
  | inserted hinserted =>
    obtain ⟨fresh, hfresh, hrow⟩ := hinserted.row
    have hold {id : ℕ} (hlt : id < db.files.next) : db'.files.get? id = db.files.get? id := by
      rw [hrow, if_neg (by omega)]
    refine ⟨hsame, runs_of_eq hruns, fun _ _ _ => by rw [hinserted.attachments],
      fun id hid => ?_, fun c id hc => .inl ?_, fun id row' hrow' hlt => ?_,
      by rw [hinserted.next]; exact Nat.le_succ _⟩
    · obtain ⟨file, hfile, -⟩ := h.of_shownTo hid
      have hlt := db.files.lt_next file (Table.mem_of_get? hfile)
      rw [Table.key_of_get? hfile] at hlt
      exact hold hlt
    · exact attachedTo_of_subset hmessages (fun a ha _ => hinserted.attachments ▸ ha) hc
    · exact ⟨row', hold hlt ▸ hrow', .refl row'⟩
  | erased fileId herased =>
    -- the asset that goes was being deleted, so it was not shown
    have hgone {id : ℕ} (hid : ShownTo db conversationId id) : id ≠ fileId := by
      rintro rfl
      obtain ⟨file, hfile, hstarted⟩ := herased.started
      exact hstarted (h.current id file hfile hid.currentReference).2
    refine ⟨hsame, runs_of_eq hruns, fun m hm hhere => ?_, fun id hid => ?_,
      fun c id hc => .inl ?_, fun id row' hrow' _ => ?_, herased.next.ge⟩
    · rw [herased.attachments, List.filter_map]
      refine (List.map_congr_left fun a ha => ?_).trans (List.map_id _)
      obtain ⟨ha, hmessage⟩ := List.mem_filter.mp ha
      have hne : a.fileId ≠ some fileId := fun hid =>
        hgone ⟨a, ha, hid, m, hm, (of_decide_eq_true hmessage).symm, hhere⟩ rfl
      rw [if_neg hne]
      rfl
    · rw [herased.row, if_neg (hgone hid)]
    · exact attachedTo_of_subset hmessages
        (fun a ha hid => ((of_mem_assetErased herased ha).2 id hid).1) hc
    · rw [herased.row] at hrow'
      split_ifs at hrow'
      exact ⟨row', hrow', .refl row'⟩

/-! ### Messages -/

/-- A step that changes messages of other conversations only. -/
theorem Attached.undisturbed_messages (h : Attached db)
    (hkept : MessagesKept db.toConversationTables db'.toConversationTables)
    (hmessages : ∀ m, m.conversationId = conversationId → (m ∈ db'.messages ↔ m ∈ db.messages))
    (hruns : ∀ r ∈ db'.runs,
      (∃ r₀ ∈ db.runs, r₀.id = r.id ∧ r₀.userMessageId = r.userMessageId) ∨ db.runs.next ≤ r.id)
    (hfiles : db'.files = db.files) (hattachments : db'.attachments = db.attachments) :
    Undisturbed conversationId db db' := by
  refine ⟨hmessages, hruns, fun _ _ _ => by rw [hattachments], fun _ _ => by rw [hfiles],
    fun c id hc => .inl ?_, fun id row' hrow' _ => ?_, by rw [hfiles]⟩
  · obtain ⟨a, ha, hid, hin⟩ := hc
    rw [hattachments] at ha
    exact ⟨a, ha, hid, (hkept.attachedIn_iff h ha).mp hin⟩
  · rw [hfiles] at hrow'
    exact ⟨row', hrow', .refl row'⟩

/-- A run that is written back belongs to the message it belonged to. -/
theorem RunMoved.runs_old {tables tables' : ConversationTables} {run run' : RunRow}
    (h : RunMoved tables tables' run run') (huser : run'.userMessageId = run.userMessageId) :
    ∀ r ∈ tables'.runs, (∃ r₀ ∈ tables.runs, r₀.id = r.id ∧ r₀.userMessageId = r.userMessageId) ∨
      tables.runs.next ≤ r.id := by
  intro r hr
  rcases (h.runs r).mp hr with rfl | ⟨hr, -⟩
  · exact .inl ⟨run, h.mem, h.id.symm, huser.symm⟩
  · exact .inl ⟨r, hr, rfl, rfl⟩

theorem AnswerEffect.runs_old {tables tables' : ConversationTables} {run : RunRow}
    {final : Message} {metadata : Json} {rows : List Transcript.TranscriptRow}
    (h : AnswerEffect tables tables' run final metadata rows) :
    ∀ r ∈ tables'.runs, (∃ r₀ ∈ tables.runs, r₀.id = r.id ∧ r₀.userMessageId = r.userMessageId) ∨
      tables.runs.next ≤ r.id := by
  intro r hr
  rcases (h.runs r).mp hr with rfl | ⟨hr, -⟩
  · exact .inl ⟨run, h.mem, rfl, rfl⟩
  · exact .inl ⟨r, hr, rfl, rfl⟩

/-- An answer is a message of its own conversation. -/
theorem AnswerEffect.messages_iff {tables tables' : ConversationTables} {run : RunRow}
    {final : Message} {metadata : Json} {rows : List Transcript.TranscriptRow} {m : MessageRow}
    (h : AnswerEffect tables tables' run final metadata rows)
    (hne : m.conversationId ≠ run.conversationId) : m ∈ tables'.messages ↔ m ∈ tables.messages := by
  rw [h.messages]
  refine or_iff_left fun heq => hne ?_
  rw [heq]
  rfl

/-- Archiving leaves other conversations alone. -/
theorem archivedRow_of_ne {m : MessageRow} {p : ℕ → Bool} {now : ℕ}
    (hne : m.conversationId ≠ conversationId) : archivedRow conversationId p now m = m :=
  if_neg fun hall => hne hall.1

theorem archivedRow_conversationId {m : MessageRow} {p : ℕ → Bool} {now : ℕ} :
    (archivedRow conversationId p now m).conversationId = m.conversationId := by
  obtain ⟨t, ht⟩ := archivedRow_eq conversationId p now m
  rw [ht]

section effects

variable {tables tables' : ConversationTables} {request : RunRequest} {m : MessageRow}

theorem RerunEffect.messages_iff {anchor : MessageRow} {blocks : List ContentBlock}
    (h : RerunEffect tables tables' request anchor blocks)
    (hhere : anchor.conversationId = request.conversationId) (hmem : anchor ∈ tables.messages)
    (hne : m.conversationId ≠ request.conversationId) :
    m ∈ tables'.messages ↔ m ∈ tables.messages := by
  rw [h.messages]
  constructor
  · rintro (⟨m₀, hm₀, -, rfl⟩ | rfl)
    · rw [archivedRow_conversationId] at hne
      rw [archivedRow_of_ne hne]
      exact hm₀
    · exact absurd hhere hne
  · intro hm
    refine .inl ⟨m, hm, fun hid => hne ?_, archivedRow_of_ne hne⟩
    rw [Table.eq_of_key_eq hm hmem hid]
    exact hhere

theorem TurnEffect.messages_iff {content : String} {quoteExcerpt : Option String} {p : ℕ → Bool}
    {blocks : List ContentBlock} {position : ℕ}
    (h : TurnEffect tables tables' request content quoteExcerpt p blocks position)
    (hne : m.conversationId ≠ request.conversationId) :
    m ∈ tables'.messages ↔ m ∈ tables.messages := by
  rw [h.messages]
  constructor
  · rintro (⟨m₀, hm₀, rfl⟩ | rfl)
    · rw [archivedRow_conversationId] at hne
      rw [archivedRow_of_ne hne]
      exact hm₀
    · exact absurd rfl hne
  · exact fun hm => .inl ⟨m, hm, archivedRow_of_ne hne⟩

end effects

/-! ### Turns -/

/-- A turn with its assets: they are bound to the new message, and the detached state of some assets
is refreshed, all of which are among them or shown by the conversation. -/
structure Turned (request : RunRequest) (content : String) (quoteExcerpt : Option String)
    (p : ℕ → Bool) (plan : AttachmentPlan) (ids : List ℕ) (db db' : FileDb) : Prop where
  effect : ∃ position, TurnEffect db.toConversationTables db'.toConversationTables request content
    quoteExcerpt p plan.blocks position
  binding : CanBind db request.conversationId plan.files
  files : ∃ bound : FileDb, FileDb.Bound db.messages.next request.now plan.files db bound ∧
    FileDb.Refreshed request.now ids bound db'
  home : ∀ id ∈ ids, id ∈ plan.files.map FileAsset.id ∨ ShownTo db request.conversationId id

theorem Attached.turned {request : RunRequest} {content : String} {quoteExcerpt : Option String}
    {p : ℕ → Bool} {plan : AttachmentPlan} {ids : List ℕ} (h : Attached db)
    (hturned : Turned request content quoteExcerpt p plan ids db db') : Attached db' := by
  obtain ⟨position, heffect⟩ := hturned.effect
  obtain ⟨bound, hbound, hrefreshed⟩ := hturned.files
  rw [hrefreshed.tables] at heffect
  exact (h.turn heffect hbound hturned.binding).refreshed hrefreshed

theorem Attached.undisturbed_turned {request : RunRequest} {content : String}
    {quoteExcerpt : Option String} {p : ℕ → Bool} {plan : AttachmentPlan} {ids : List ℕ}
    (h : Attached db) (hturned : Turned request content quoteExcerpt p plan ids db db')
    (hne : conversationId ≠ request.conversationId) : Undisturbed conversationId db db' := by
  obtain ⟨position, heffect⟩ := hturned.effect
  obtain ⟨bound, hbound, hrefreshed⟩ := hturned.files
  have hattachments : db'.attachments =
      db.attachments ++ FileDb.newAttachments db.messages.next plan.files :=
    hrefreshed.attachments.trans hbound.attachments
  -- what another conversation shows is not among the assets that are written
  have haway {id : ℕ} (hid : ShownTo db conversationId id) :
      id ∉ plan.files.map FileAsset.id := by
    intro hmem
    obtain ⟨file, hfile, rfl⟩ := List.mem_map.mp hmem
    rcases hturned.binding.home file hfile with hunbound | hshown
    · obtain ⟨a, ha, haid, -⟩ := hid
      exact h.not_attached (hturned.binding.holds file hfile) hunbound a ha haid
    · exact hne (h.attachedTo_unique hid.attachedTo hshown.attachedTo)
  refine ⟨fun m hhere => heffect.messages_iff (hhere ▸ hne), fun r hr => ?_, fun m hm _ => ?_,
    fun id hid => ?_, fun c id hc => ?_, fun id row' hrow' _ => ?_,
    (hrefreshed.next.trans hbound.next).ge⟩
  · rcases (heffect.runs r).mp hr with hr | rfl
    · exact .inl ⟨r, hr, rfl, rfl⟩
    · exact .inr le_rfl
  · rw [hattachments, List.filter_append]
    refine (congrArg _ (List.filter_eq_nil_iff.mpr fun a ha => ?_)).trans (List.append_nil _)
    have hlt := db.messages.lt_next m hm.1
    rw [(FileDb.mem_newAttachments ha).1, decide_eq_true_eq]
    omega
  · have hunread : id ∉ ids := by
      intro hmem
      rcases hturned.home id hmem with hplan | hshown
      · exact haway hid hplan
      · exact hne (h.attachedTo_unique hid.attachedTo hshown.attachedTo)
    rw [hrefreshed.other id hunread, hbound.other id (haway hid)]
  · obtain ⟨a, ha, hid, hin⟩ := hc
    rw [hattachments] at ha
    rcases List.mem_append.mp ha with hold | hnew
    · exact .inl ⟨a, hold, hid, (heffect.messagesKept.attachedIn_iff h hold).mp hin⟩
    · obtain ⟨hmessage, file, hfile, heq⟩ := FileDb.mem_newAttachments hnew
      have hc : c = request.conversationId := by
        refine attachedIn_unique hin ⟨_, (heffect.messages _).mpr (.inr rfl), hmessage.symm, rfl⟩
      rw [hid] at heq
      cases heq
      rw [hc]
      rcases hturned.binding.home file hfile with hunbound | hshown
      · exact .inr ⟨hne.symm, file, hturned.binding.holds file hfile, hunbound⟩
      · exact .inl hshown.attachedTo
  · obtain ⟨row₁, hrow₁, heq, -⟩ := row_of_refreshed hrefreshed hrow'
    rw [heq]
    rcases row_of_bound hbound hrow₁ with ⟨file, hfile, rfl, rfl⟩ | ⟨-, hrow⟩
    · refine ⟨file, hturned.binding.holds file hfile, fun _ => FileAsset.bind_boundAt _ _ _,
        fun hstarted => absurd (hturned.binding.kept file hfile) hstarted, fun hfirst => .inl ?_⟩
      exact (FileAsset.bind_sourceMessageId _ _ _).trans (if_neg hfirst)
    · exact ⟨row₁, hrow, fun hbound => hbound, fun hstarted => hstarted, fun _ => .inl rfl⟩

/-! ### Purges -/

theorem Attached.undisturbed_purged {c : ℕ} {files : List FileAsset} (h : Attached db)
    (hready : PurgeReady c files db) (hpurged : Purged c files db db')
    (hne : conversationId ≠ c) : Undisturbed conversationId db db' := by
  refine ⟨fun m hhere => ?_, fun r hr => .inl ⟨r, ((hpurged.runs r).mp hr).1, rfl, rfl⟩,
    fun m hm hhere => ?_, fun id hid => ?_, fun c' id hc => .inl (hpurged.attachedTo hc).1,
    fun id row' hrow' _ => ?_, hpurged.next.ge⟩
  · rw [hpurged.messages]
    exact and_iff_left (hhere ▸ hne)
  · rw [hpurged.attachments, List.filter_filter]
    refine List.filter_congr fun a _ => ?_
    rw [Bool.and_eq_left_iff_imp, decide_eq_true_eq, decide_eq_true_eq]
    rintro hmessage ⟨m', hm', hid', hthere⟩
    have heq : m' = m := Table.eq_of_key_eq hm' hm.1 (hid'.trans hmessage)
    rw [heq] at hthere
    exact hne (hhere.symm.trans hthere)
  · obtain ⟨row, hrow, hbound, -, hnone⟩ := h.of_shownTo hid
    obtain ⟨row', hrow'⟩ := hpurged.kept id row hrow
    obtain ⟨row₀, hrow₀, heq, hsource, hdeletion⟩ := hpurged.row id row' hrow'
    rw [hrow] at hrow₀
    cases hrow₀
    have hsame : row'.sourceMessageId = row.sourceMessageId := by
      rcases hsource with hsame | ⟨-, b, hb, hin⟩
      · exact hsame
      · -- the source message of the asset is in the conversation that shows it
        obtain ⟨a, ha, haid, hfirst⟩ := h.source id row hrow hbound hnone
        have heqId : b.messageId = a.messageId := Option.eq_some_unique hb hfirst
        have hain := h.confined _ id hid.attachedTo a ha haid
        obtain ⟨m, hm, hidm, hthere⟩ := hin
        exact absurd (attachedIn_unique hain ⟨m, hm, hidm.trans heqId, hthere⟩) hne
    have hkept : row'.deletionStartedAt = row.deletionStartedAt := by
      rcases hdeletion with hkept | hmem
      · exact hkept
      · obtain ⟨file, hfile, rfl⟩ := List.mem_map.mp hmem
        exact absurd (hready.exclusive file hfile _ hid.attachedTo) hne
    rw [hrow', hrow, heq, hsame, hkept]
  · obtain ⟨row, hrow, heq, hsource, hdeletion⟩ := hpurged.row id row' hrow'
    have hread : id ∈ files.map FileAsset.id → row'.deletionStartedAt ≠ none := by
      intro hmem
      obtain ⟨file, hfile, rfl⟩ := List.mem_map.mp hmem
      exact hpurged.deletions hready.started file hfile row' hrow'
    have hstarted : row.deletionStartedAt ≠ none → row'.deletionStartedAt ≠ none := by
      intro hstarted
      rcases hdeletion with hsame | hmem
      · rw [hsame]
        exact hstarted
      · exact hread hmem
    refine ⟨row, hrow, fun hbound => by rw [heq]; exact hbound, hstarted, fun hbound => ?_⟩
    rcases hsource with hsame | ⟨hforgotten, b, hb, hin⟩
    · exact .inl hsame
    · refine .inr ⟨hforgotten, ?_⟩
      by_cases hnone : row.deletionStartedAt = none
      · -- the purge has read every asset of its conversation
        obtain ⟨a, ha, haid, hfirst⟩ := h.source id row hrow hbound hnone
        have heqId : b.messageId = a.messageId := Option.eq_some_unique hb hfirst
        obtain ⟨m, hm, hidm, hthere⟩ := hin
        exact hread (hready.covered id ⟨a, ha, haid, m, hm, hidm.trans heqId, hthere⟩)
      · exact hstarted hnone

end IChat.Chat
