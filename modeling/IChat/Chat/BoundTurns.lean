import IChat.Chat.Attachments

/-!
# Assets through the steps of a conversation

The rest of what keeps `Attached`. A step that changes messages only keeps every message, in its
conversation, and shows none that was hidden (`MessagesKept`). A turn attaches its assets to a new
message, an edit refreshes the detached state of what it held, and a purge removes the messages of a
conversation with their attachments.
-/

namespace IChat.Chat

open Files Conversations

/-! ### Messages that stay -/

/-- Every message stays in its conversation, and no old message is shown again. -/
structure MessagesKept (db db' : ConversationTables) : Prop where
  kept : ∀ m ∈ db.messages, ∃ m' ∈ db'.messages,
    m'.id = m.id ∧ m'.conversationId = m.conversationId
  shown : ∀ m', ShownIn db' m' → m'.id < db.messages.next → ∃ m, ShownIn db m ∧ m.id = m'.id

section kept

variable {db db' : ConversationTables} {request : RunRequest}

theorem MessagesKept.of_eq (h : db'.messages = db.messages) : MessagesKept db db' where
  kept m hm := ⟨m, h ▸ hm, rfl, rfl⟩
  shown m' hm' _ := ⟨m', ⟨h ▸ hm'.1, hm'.2⟩, rfl⟩

theorem TurnEffect.messagesKept {content : String} {quoteExcerpt : Option String} {p : ℕ → Bool}
    {blocks : List ContentBlock} {position : ℕ}
    (h : TurnEffect db db' request content quoteExcerpt p blocks position) :
    MessagesKept db db' where
  kept m hm := by
    obtain ⟨t, ht⟩ := archivedRow_eq request.conversationId p request.now m
    refine ⟨_, (h.messages _).mpr (.inl ⟨m, hm, ht⟩), rfl, rfl⟩
  shown m' hm' hlt := by
    rcases h.shownIn.mp hm' with ⟨hm, -⟩ | rfl
    · exact ⟨m', hm, rfl⟩
    · exact absurd hlt (lt_irrefl _)

theorem RerunEffect.messagesKept {anchor : MessageRow} {blocks : List ContentBlock}
    (h : RerunEffect db db' request anchor blocks) (hmem : anchor ∈ db.messages)
    (hshown : anchor.archivedAt = none) : MessagesKept db db' where
  kept m hm := by
    by_cases hid : m.id = anchor.id
    · obtain rfl := Table.eq_of_key_eq hm hmem hid
      exact ⟨_, (h.messages _).mpr (.inr rfl), rfl, rfl⟩
    · obtain ⟨t, ht⟩ :=
        archivedRow_eq request.conversationId (anchor.position < ·) request.now m
      exact ⟨_, (h.messages _).mpr (.inl ⟨m, hm, hid, ht⟩), rfl, rfl⟩
  shown m' hm' _ := by
    rcases (h.shownIn hshown).mp hm' with ⟨hm, -, -⟩ | rfl
    · exact ⟨m', hm, rfl⟩
    · exact ⟨anchor, ⟨hmem, hshown⟩, rfl⟩

theorem AnswerEffect.messagesKept {run : RunRow} {final : Message} {metadata : Json}
    {rows : List Transcript.TranscriptRow} (h : AnswerEffect db db' run final metadata rows) :
    MessagesKept db db' where
  kept m hm := ⟨m, (h.messages m).mpr (.inl hm), rfl, rfl⟩
  shown m' hm' hlt := by
    rcases h.shownIn.mp hm' with hm | rfl
    · exact ⟨m', hm, rfl⟩
    · exact absurd hlt (lt_irrefl _)

end kept

section attachments

variable {db db' : FileDb} {request : RunRequest} {conversationId : ℕ}

/-- An attachment stays in its conversation. -/
theorem MessagesKept.attachedIn_iff
    (h : MessagesKept db.toConversationTables db'.toConversationTables) (hdb : Attached db) {c : ℕ}
    {a : MessageAttachment} (ha : a ∈ db.attachments) :
    db'.AttachedIn c a ↔ db.AttachedIn c a := by
  have hto {c : ℕ} (hin : db.AttachedIn c a) : db'.AttachedIn c a := by
    obtain ⟨m, hm, hid, hhere⟩ := hin
    obtain ⟨m', hm', hid', hhere'⟩ := h.kept m hm
    exact ⟨m', hm', hid'.trans hid, hhere'.trans hhere⟩
  refine ⟨fun hin => ?_, hto⟩
  obtain ⟨m, hm, hid⟩ := hdb.message a ha
  have hhome : db.AttachedIn m.conversationId a := ⟨m, hm, hid, rfl⟩
  rw [attachedIn_unique hin (hto hhome)]
  exact hhome

/-- A message that is shown and attaches an asset as before was shown before. -/
theorem MessagesKept.shown_of_attachment
    (h : MessagesKept db.toConversationTables db'.toConversationTables) (hdb : Attached db)
    {a : MessageAttachment} (ha : a ∈ db.attachments) {m' : MessageRow}
    (hm' : ShownIn db'.toConversationTables m') (hid : m'.id = a.messageId) :
    ∃ m, ShownIn db.toConversationTables m ∧ m.id = a.messageId := by
  obtain ⟨m₀, hm₀, hid₀⟩ := hdb.message a ha
  have hlt := db.messages.lt_next m₀ hm₀
  obtain ⟨m, hm, heq⟩ := h.shown m' hm' (by rw [hid, ← hid₀]; exact hlt)
  exact ⟨m, hm, heq.trans hid⟩

theorem Attached.messages (h : Attached db)
    (hkept : MessagesKept db.toConversationTables db'.toConversationTables)
    (hfiles : db'.files = db.files) (hattachments : db'.attachments = db.attachments) :
    Attached db' := by
  refine ⟨fun a ha => ?_, ?_, fun c id hc a ha hid => ?_, fun a ha m' hm' hid => ?_,
    fun id file hfile hcurrent => ?_, ?_, ?_, ?_⟩
  · obtain ⟨m, hm, hid⟩ := h.message a (hattachments ▸ ha)
    obtain ⟨m', hm', hid', -⟩ := hkept.kept m hm
    exact ⟨m', hm', hid'.trans hid⟩
  · rw [hattachments, hfiles]
    exact h.asset
  · obtain ⟨b, hb, hbid, hbin⟩ := hc
    rw [hattachments] at ha hb
    rw [hkept.attachedIn_iff h hb] at hbin
    exact (hkept.attachedIn_iff h ha).mpr (h.confined c id ⟨b, hb, hbid, hbin⟩ a ha hid)
  · rw [hattachments] at ha
    obtain ⟨m, hm, heq⟩ := hkept.shown_of_attachment h ha hm' hid
    exact h.shown a ha m hm heq
  · obtain ⟨a, ha, hid, m', hm', hmessage, hshown⟩ := hcurrent
    rw [hattachments] at ha
    obtain ⟨m, hm, heq⟩ := hkept.shown_of_attachment h ha ⟨hm', hshown⟩ hmessage
    exact h.current id file (hfiles ▸ hfile) ⟨a, ha, hid, m, hm.1, heq, hm.2⟩
  · rw [hattachments, hfiles]
    exact h.source
  · rw [hfiles]
    exact h.purpose
  · rw [hfiles]
    exact h.unbound

/-! ### Turns -/

/-- The assets of a turn wait for their first message, or are shown by the conversation already. -/
structure CanBind (db : FileDb) (conversationId : ℕ) (files : List FileAsset) : Prop where
  holds : db.Holds files
  nodup : (files.map FileAsset.id).Nodup
  purpose : ∀ file ∈ files, file.purpose = .messageAttachment
  kept : ∀ file ∈ files, file.deletionStartedAt = none
  home : ∀ file ∈ files, file.boundAt = none ∨ ShownTo db conversationId file.id

/-- A row after a binding. -/
theorem row_of_bound {messageId now : ℕ} {files : List FileAsset}
    (h : FileDb.Bound messageId now files db db') {id : ℕ} {row : FileAsset}
    (hrow : db'.files.get? id = some row) :
    (∃ file ∈ files, file.id = id ∧ row = file.bind messageId now) ∨
      id ∉ files.map FileAsset.id ∧ db.files.get? id = some row := by
  by_cases hid : id ∈ files.map FileAsset.id
  · obtain ⟨file, hfile, rfl⟩ := List.mem_map.mp hid
    rw [h.bound file hfile] at hrow
    exact .inl ⟨file, hfile, rfl, (Option.some.inj hrow).symm⟩
  · rw [h.other id hid] at hrow
    exact .inr ⟨hid, hrow⟩

theorem Attached.turn {content : String} {quoteExcerpt : Option String} {p : ℕ → Bool}
    {blocks : List ContentBlock} {position : ℕ} {files : List FileAsset} (h : Attached db)
    (heffect : TurnEffect db.toConversationTables db'.toConversationTables request content
      quoteExcerpt p blocks position)
    (hbound : FileDb.Bound db.messages.next request.now files db db')
    (hcan : CanBind db request.conversationId files) : Attached db' := by
  have hkept := heffect.messagesKept
  have hnew : newMessage db.toConversationTables request content quoteExcerpt position ∈
      db'.messages := (heffect.messages _).mpr (.inr rfl)
  have hmem {a : MessageAttachment} (ha : a ∈ db'.attachments) :
      a ∈ db.attachments ∨ a.messageId = db.messages.next ∧
        ∃ file ∈ files, a.fileId = some file.id := by
    rw [hbound.attachments] at ha
    exact (List.mem_append.mp ha).imp_right FileDb.mem_newAttachments
  have hnewIn {a : MessageAttachment} (ha : a.messageId = db.messages.next) :
      db'.AttachedIn request.conversationId a := ⟨_, hnew, ha.symm, rfl⟩
  -- an asset of the turn that was attached before was attached in the conversation
  have hhome {a : MessageAttachment} {file : FileAsset} (ha : a ∈ db.attachments)
      (hfile : file ∈ files) (hid : a.fileId = some file.id) :
      db.AttachedIn request.conversationId a := by
    rcases hcan.home file hfile with hunbound | hshown
    · exact absurd hid (h.not_attached (hcan.holds file hfile) hunbound a ha)
    · exact h.confined _ _ hshown.attachedTo a ha hid
  refine ⟨fun a ha => ?_, fun a ha id hid => ?_, fun c id hc a ha hid => ?_,
    fun a ha m' hm' hid => ?_, fun id row hrow hcurrent => ?_,
    fun id row hrow hrowBound hnone => ?_, fun id row hrow hrowBound => ?_,
      fun id row hrow hunbound => ?_⟩
  · rcases hmem ha with hold | ⟨hmessage, -⟩
    · obtain ⟨m, hm, hid⟩ := h.message a hold
      obtain ⟨m', hm', hid', -⟩ := hkept.kept m hm
      exact ⟨m', hm', hid'.trans hid⟩
    · exact ⟨_, hnew, hmessage.symm⟩
  · by_cases hplan : id ∈ files.map FileAsset.id
    · obtain ⟨file, hfile, rfl⟩ := List.mem_map.mp hplan
      exact ⟨_, hbound.bound file hfile, FileAsset.bind_boundAt _ _ _⟩
    · rcases hmem ha with hold | ⟨-, file, hfile, heq⟩
      · rw [hbound.other id hplan]
        exact h.asset a hold id hid
      · rw [hid] at heq
        exact absurd (List.mem_map.mpr ⟨file, hfile, (Option.some.inj heq).symm⟩) hplan
  · obtain ⟨b, hb, hbid, hbin⟩ := hc
    rcases hmem ha with hold | ⟨hmessage, file, hfile, heq⟩ <;>
      rcases hmem hb with hbold | ⟨hbmessage, file', hfile', hbeq⟩
    · rw [hkept.attachedIn_iff h hbold] at hbin
      exact (hkept.attachedIn_iff h hold).mpr (h.confined c id ⟨b, hbold, hbid, hbin⟩ a hold hid)
    · rw [attachedIn_unique hbin (hnewIn hbmessage)]
      rw [hbid] at hbeq
      exact (hkept.attachedIn_iff h hold).mpr (hhome hold hfile' (hid.trans hbeq))
    · rw [hkept.attachedIn_iff h hbold] at hbin
      rw [hid] at heq
      rw [attachedIn_unique hbin (hhome hbold hfile (hbid.trans heq))]
      exact hnewIn hmessage
    · rw [attachedIn_unique hbin (hnewIn hbmessage)]
      exact hnewIn hmessage
  · rcases hmem ha with hold | ⟨-, file, -, heq⟩
    · obtain ⟨m, hm, heq⟩ := hkept.shown_of_attachment h hold hm' hid
      exact h.shown a hold m hm heq
    · rw [heq]
      nofun
  · rcases row_of_bound hbound hrow with ⟨file, hfile, rfl, rfl⟩ | ⟨hplan, hrow⟩
    · refine ⟨FileAsset.bind_detachedAt _ _ _, ?_⟩
      rw [FileAsset.bind_deletionStartedAt]
      exact hcan.kept file hfile
    · obtain ⟨a, ha, hid, m', hm', hmessage, hshown⟩ := hcurrent
      rcases hmem ha with hold | ⟨-, file, hfile, heq⟩
      · obtain ⟨m, hm, hidm⟩ := hkept.shown_of_attachment h hold ⟨hm', hshown⟩ hmessage
        exact h.current id row hrow ⟨a, hold, hid, m, hm.1, hidm, hm.2⟩
      · rw [hid] at heq
        exact absurd (List.mem_map.mpr ⟨file, hfile, (Option.some.inj heq).symm⟩) hplan
  · rw [hbound.attachments]
    rcases row_of_bound hbound hrow with ⟨file, hfile, rfl, rfl⟩ | ⟨-, hrow⟩
    · rw [FileAsset.bind_sourceMessageId]
      split_ifs with hunbound
      · obtain ⟨a, ha, hid⟩ := FileDb.exists_mem_newAttachments db.messages.next hfile
        have hmessage := (FileDb.mem_newAttachments ha).1
        exact ⟨a, List.mem_append_right _ ha, hid, by rw [hmessage]⟩
      · obtain ⟨a, ha, hid, hsource⟩ := h.source file.id file (hcan.holds file hfile) hunbound
          (hcan.kept file hfile)
        exact ⟨a, List.mem_append_left _ ha, hid, hsource⟩
    · obtain ⟨a, ha, hid, hsource⟩ := h.source id row hrow hrowBound hnone
      exact ⟨a, List.mem_append_left _ ha, hid, hsource⟩
  · rcases row_of_bound hbound hrow with ⟨file, hfile, rfl, rfl⟩ | ⟨-, hrow⟩
    · rw [FileAsset.bind_purpose]
      exact hcan.purpose file hfile
    · exact h.purpose id row hrow hrowBound
  · rcases row_of_bound hbound hrow with ⟨file, hfile, rfl, rfl⟩ | ⟨-, hrow⟩
    · exact absurd hunbound (FileAsset.bind_boundAt _ _ _)
    · exact h.unbound id row hrow hunbound

/-! ### Refreshing -/

/-- A row after a refresh differs in its detached state, and in that only. -/
theorem row_of_refreshed {now : ℕ} {ids : List ℕ} (h : FileDb.Refreshed now ids db db') {id : ℕ}
    {row' : FileAsset} (hrow' : db'.files.get? id = some row') :
    ∃ row, db.files.get? id = some row ∧ row' = { row with detachedAt := row'.detachedAt } ∧
      (row'.detachedAt = row.detachedAt ∨
        id ∈ ids ∧ (row'.detachedAt = none ↔ db.CurrentReference id)) := by
  by_cases hid : id ∈ ids
  · rw [h.refreshed id hid, Option.map_eq_some_iff] at hrow'
    obtain ⟨row, hrow, rfl⟩ := hrow'
    refine ⟨row, hrow, ?_⟩
    unfold FileAsset.refreshed
    split_ifs with hstarted hshown
    · exact ⟨rfl, .inl rfl⟩
    · exact ⟨rfl, .inr ⟨hid, iff_of_true rfl hshown⟩⟩
    · exact ⟨rfl, .inr ⟨hid, iff_of_false nofun hshown⟩⟩
  · rw [h.other id hid] at hrow'
    exact ⟨row', hrow', rfl, .inl rfl⟩

theorem Attached.refreshed {now : ℕ} {ids : List ℕ} (h : Attached db)
    (hrefreshed : FileDb.Refreshed now ids db db') : Attached db' := by
  have hmessages : db'.messages = db.messages :=
    congrArg ConversationTables.messages hrefreshed.tables
  have hin {c : ℕ} {a : MessageAttachment} : db'.AttachedIn c a ↔ db.AttachedIn c a := by
    unfold FileDb.AttachedIn
    rw [hmessages]
  have hreference {id : ℕ} : db'.CurrentReference id ↔ db.CurrentReference id :=
    FileDb.currentReference_congr hmessages hrefreshed.attachments
  refine ⟨?_, fun a ha id hid => ?_, fun c id hc a ha hid => ?_, fun a ha m hm => ?_,
    fun id row' hrow' hcurrent => ?_, fun id row' hrow' hbound hnone => ?_,
      fun id row' hrow' hbound => ?_,
    fun id row' hrow' hunbound => ?_⟩
  · rw [hmessages, hrefreshed.attachments]
    exact h.message
  · rw [hrefreshed.attachments] at ha
    obtain ⟨row, hrow, hbound⟩ := h.asset a ha id hid
    by_cases hmem : id ∈ ids
    · have hrow' := hrefreshed.refreshed id hmem
      rw [hrow, Option.map_some] at hrow'
      exact ⟨_, hrow', by rw [FileAsset.refreshed_boundAt]; exact hbound⟩
    · exact ⟨row, (hrefreshed.other id hmem).trans hrow, hbound⟩
  · rw [hrefreshed.attachments] at ha
    obtain ⟨b, hb, hbid, hbin⟩ := hc
    rw [hrefreshed.attachments] at hb
    exact hin.mpr (h.confined c id ⟨b, hb, hbid, hin.mp hbin⟩ a ha hid)
  · rw [hrefreshed.attachments] at ha
    exact h.shown a ha m ⟨hmessages ▸ hm.1, hm.2⟩
  · obtain ⟨row, hrow, heq, hdetached⟩ := row_of_refreshed hrefreshed hrow'
    rw [hreference] at hcurrent
    obtain ⟨hshown, hkept⟩ := h.current id row hrow hcurrent
    refine ⟨?_, by rw [heq]; exact hkept⟩
    rcases hdetached with hsame | ⟨-, hiff⟩
    · exact hsame.trans hshown
    · exact hiff.mpr hcurrent
  · obtain ⟨row, hrow, heq, -⟩ := row_of_refreshed hrefreshed hrow'
    rw [heq] at hbound hnone
    rw [hrefreshed.attachments, heq]
    exact h.source id row hrow hbound hnone
  · obtain ⟨row, hrow, heq, -⟩ := row_of_refreshed hrefreshed hrow'
    rw [heq] at hbound ⊢
    exact h.purpose id row hrow hbound
  · obtain ⟨row, hrow, heq, -⟩ := row_of_refreshed hrefreshed hrow'
    rw [heq] at hunbound ⊢
    exact h.unbound id row hrow hunbound

end attachments

end IChat.Chat
