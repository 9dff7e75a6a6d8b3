import IChat.Chat.Effects
import IChat.Files.BoundRows

/-!
# Assets and the messages that attach them

`Attached` is what holds of the assets of every state: all messages that attach an asset are in one
conversation, an asset that is attached is bound, an asset that is shown is there and neither
detached nor being deleted, and a bound asset knows the one message that it was bound to first.

Each effect of a step keeps it: the transactions of the files domain (`FileEffect`), the binding of
a turn and the refreshing of an edit, the steps that change messages only, and a purge.
-/

namespace IChat.Chat

open Files Conversations

variable {db db' : FileDb} {conversationId id : ℕ}

/-- A message of the conversation attaches the asset. -/
def AttachedTo (db : FileDb) (conversationId id : ℕ) : Prop :=
  ∃ a ∈ db.attachments, a.fileId = some id ∧ db.AttachedIn conversationId a

/-- A message of the conversation that is shown attaches the asset. -/
def ShownTo (db : FileDb) (conversationId id : ℕ) : Prop :=
  ∃ a ∈ db.attachments, a.fileId = some id ∧
    ∃ m, ShownIn db.toConversationTables m ∧ m.id = a.messageId ∧ m.conversationId = conversationId

theorem ShownTo.attachedTo (h : ShownTo db conversationId id) :
    AttachedTo db conversationId id := by
  obtain ⟨a, ha, hid, m, hm, hmessage, hhere⟩ := h
  exact ⟨a, ha, hid, m, hm.1, hmessage, hhere⟩

theorem ShownTo.currentReference (h : ShownTo db conversationId id) : db.CurrentReference id := by
  obtain ⟨a, ha, hid, m, hm, hmessage, -⟩ := h
  exact ⟨a, ha, hid, m, hm.1, hmessage, hm.2⟩

theorem shownTo_of_currentReference (h : db.CurrentReference id) : ∃ c, ShownTo db c id := by
  obtain ⟨a, ha, hid, m, hm, hmessage, hshown⟩ := h
  exact ⟨m.conversationId, a, ha, hid, m, ⟨hm, hshown⟩, hmessage, rfl⟩

/-- An attachment is in one conversation. -/
theorem attachedIn_unique {c c' : ℕ} {a : MessageAttachment} (h : db.AttachedIn c a)
    (h' : db.AttachedIn c' a) : c = c' := by
  obtain ⟨m, hm, hid, rfl⟩ := h
  obtain ⟨m', hm', hid', rfl⟩ := h'
  rw [Table.eq_of_key_eq hm hm' (hid.trans hid'.symm)]

/-! ### The invariant -/

/-- What assets, attachments and messages have to do with each other. -/
structure Attached (db : FileDb) : Prop where
  message : ∀ a ∈ db.attachments, ∃ m ∈ db.messages, m.id = a.messageId
  asset : ∀ a ∈ db.attachments, ∀ id, a.fileId = some id →
    ∃ file, db.files.get? id = some file ∧ file.boundAt ≠ none
  confined : ∀ c id, AttachedTo db c id → ∀ a ∈ db.attachments, a.fileId = some id →
    db.AttachedIn c a
  shown : ∀ a ∈ db.attachments, ∀ m, ShownIn db.toConversationTables m → m.id = a.messageId →
    a.fileId ≠ none
  current : ∀ id file, db.files.get? id = some file → db.CurrentReference id →
    file.detachedAt = none ∧ file.deletionStartedAt = none
  source : ∀ id file, db.files.get? id = some file → file.boundAt ≠ none →
    file.deletionStartedAt = none →
    ∃ a ∈ db.attachments, a.fileId = some id ∧ file.sourceMessageId = some a.messageId
  purpose : ∀ id file, db.files.get? id = some file → file.boundAt ≠ none →
    file.purpose = .messageAttachment
  unbound : ∀ id file, db.files.get? id = some file → file.boundAt = none →
    file.sourceMessageId = none

theorem attached_empty : Attached .empty := by
  have hnone {id : ℕ} {file : FileAsset} : FileDb.empty.files.get? id ≠ some file := by
    intro hfile
    exact Table.not_mem_empty (Table.mem_of_get? hfile)
  refine ⟨fun _ ha => absurd ha List.not_mem_nil, fun _ ha => absurd ha List.not_mem_nil,
    fun _ _ _ _ ha => absurd ha List.not_mem_nil, fun _ ha => absurd ha List.not_mem_nil,
    fun _ _ hfile => absurd hfile hnone, fun _ _ hfile => absurd hfile hnone, fun _ _ hfile =>
      absurd hfile hnone,
    fun _ _ hfile => absurd hfile hnone⟩

namespace Attached

/-- An asset that is not bound is not attached. -/
theorem not_attached (h : Attached db) {file : FileAsset} (hfile : db.files.get? id = some file)
    (hunbound : file.boundAt = none) : ∀ a ∈ db.attachments, a.fileId ≠ some id := by
  intro a ha hid
  obtain ⟨file', hfile', hbound⟩ := h.asset a ha id hid
  rw [hfile] at hfile'
  cases hfile'
  exact hbound hunbound

/-- An asset that is shown is there, bound, and neither detached nor being deleted. -/
theorem of_shownTo (h : Attached db) (hshown : ShownTo db conversationId id) :
    ∃ file, db.files.get? id = some file ∧ file.boundAt ≠ none ∧ file.detachedAt = none ∧
      file.deletionStartedAt = none := by
  obtain ⟨a, ha, hid, -⟩ := hshown.attachedTo
  obtain ⟨file, hfile, hbound⟩ := h.asset a ha id hid
  exact ⟨file, hfile, hbound, h.current id file hfile hshown.currentReference⟩

/-- Only messages of one conversation attach an asset. -/
theorem attachedTo_unique (h : Attached db) {c c' : ℕ} (hc : AttachedTo db c id)
    (hc' : AttachedTo db c' id) : c = c' := by
  obtain ⟨a, ha, hid, hin⟩ := hc'
  exact attachedIn_unique (h.confined c id hc a ha hid) hin

end Attached

/-! ### The files domain -/

theorem Attached.same (h : Attached db) (hsame : FileDb.SameFiles db db') : Attached db' := by
  obtain ⟨uploads, files, objects, deletions, quotas, inactive, attachments⟩ := db
  obtain ⟨uploads', files', objects', deletions', quotas', inactive', attachments'⟩ := db'
  obtain ⟨htables, hfiles, hattachments⟩ := hsame
  cases htables
  cases hfiles
  cases hattachments
  exact ⟨h.message, h.asset, h.confined, h.shown, h.current, h.source, h.purpose, h.unbound⟩

/-- No deletion begins of an asset that is shown. -/
theorem Attached.not_unboundOrDetached (h : Attached db) (hcurrent : db.CurrentReference id) :
    ¬db.UnboundOrDetached id := by
  rintro ⟨file, hfile, hunbound | hdetached⟩
  · obtain ⟨a, ha, hid, -⟩ := hcurrent
    exact h.not_attached hfile hunbound a ha hid
  · exact hdetached (h.current id file hfile hcurrent).1

theorem Attached.deletions (h : Attached db)
    (hstarted : FileDb.DeletionsStarted db.UnboundOrDetached db db') : Attached db' := by
  have hmessages : db'.messages = db.messages :=
    congrArg ConversationTables.messages hstarted.tables
  have hin {c : ℕ} {a : MessageAttachment} : db'.AttachedIn c a ↔ db.AttachedIn c a := by
    unfold FileDb.AttachedIn
    rw [hmessages]
  have hreference {id : ℕ} : db'.CurrentReference id ↔ db.CurrentReference id :=
    FileDb.currentReference_congr hmessages hstarted.attachments
  refine ⟨?_, fun a ha id hid => ?_, fun c id hc a ha hid => ?_, fun a ha m hm => ?_,
    fun id file hfile hcurrent => ?_, fun id file hfile hbound hnone => ?_,
    fun id file hfile hbound => ?_, fun id file hfile hunbound => ?_⟩
  · rw [hmessages, hstarted.attachments]
    exact h.message
  · rw [hstarted.attachments] at ha
    obtain ⟨file, hfile, hbound⟩ := h.asset a ha id hid
    rcases hstarted.row id with hsame | ⟨-, file', now, hfile', hmarked⟩
    · exact ⟨file, hsame.trans hfile, hbound⟩
    · rw [hfile] at hfile'
      cases hfile'
      exact ⟨_, hmarked, hbound⟩
  · rw [hstarted.attachments] at ha
    obtain ⟨b, hb, hbid, hbin⟩ := hc
    rw [hstarted.attachments] at hb
    exact hin.mpr (h.confined c id ⟨b, hb, hbid, hin.mp hbin⟩ a ha hid)
  · rw [hstarted.attachments] at ha
    exact h.shown a ha m ⟨hmessages ▸ hm.1, hm.2⟩
  · obtain ⟨file₀, hfile₀, heq, hmoved⟩ := hstarted.get?_eq hfile
    rw [hreference] at hcurrent
    obtain ⟨hdetached, hdeletion⟩ := h.current id file₀ hfile₀ hcurrent
    rcases hmoved with hsame | hgone
    · rw [heq]
      exact ⟨hdetached, hsame.trans hdeletion⟩
    · exact absurd hgone (h.not_unboundOrDetached hcurrent)
  · obtain ⟨file₀, hfile₀, heq, hmoved⟩ := hstarted.get?_eq hfile
    have hnone₀ : file₀.deletionStartedAt = none := by
      rcases hstarted.row id with hsame | ⟨-, file', now, -, hmarked⟩
      · rw [hsame, hfile₀] at hfile
        rw [Option.some.inj hfile]
        exact hnone
      · rw [hmarked] at hfile
        cases hfile
        cases hnone
    rw [hstarted.attachments, heq]
    rw [heq] at hbound
    exact h.source id file₀ hfile₀ hbound hnone₀
  · obtain ⟨file₀, hfile₀, heq, -⟩ := hstarted.get?_eq hfile
    rw [heq] at hbound ⊢
    exact h.purpose id file₀ hfile₀ hbound
  · obtain ⟨file₀, hfile₀, heq, -⟩ := hstarted.get?_eq hfile
    rw [heq] at hunbound ⊢
    exact h.unbound id file₀ hfile₀ hunbound

theorem Attached.inserted (h : Attached db) (hinserted : FileDb.AssetInserted db db') :
    Attached db' := by
  obtain ⟨fresh, hfresh, hrow⟩ := hinserted.row
  have hmessages : db'.messages = db.messages :=
    congrArg ConversationTables.messages hinserted.tables
  have hin {c : ℕ} {a : MessageAttachment} : db'.AttachedIn c a ↔ db.AttachedIn c a := by
    unfold FileDb.AttachedIn
    rw [hmessages]
  have hreference {id : ℕ} : db'.CurrentReference id ↔ db.CurrentReference id :=
    FileDb.currentReference_congr hmessages hinserted.attachments
  have hold {id : ℕ} {file : FileAsset} (hfile : db'.files.get? id = some file) :
      file = fresh ∨ db.files.get? id = some file := by
    rw [hrow] at hfile
    split_ifs at hfile
    · exact .inl (Option.some.inj hfile).symm
    · exact .inr hfile
  have hkept {id : ℕ} {file : FileAsset} (hfile : db.files.get? id = some file) :
      db'.files.get? id = some file := by
    have hlt := db.files.lt_next file (Table.mem_of_get? hfile)
    rw [Table.key_of_get? hfile] at hlt
    rw [hrow, if_neg (by omega)]
    exact hfile
  refine ⟨?_, fun a ha id hid => ?_, fun c id hc a ha hid => ?_, fun a ha m hm => ?_,
    fun id file hfile hcurrent => ?_, fun id file hfile hbound hnone => ?_,
    fun id file hfile hbound => ?_, fun id file hfile hunbound => ?_⟩
  · rw [hmessages, hinserted.attachments]
    exact h.message
  · rw [hinserted.attachments] at ha
    obtain ⟨file, hfile, hbound⟩ := h.asset a ha id hid
    exact ⟨file, hkept hfile, hbound⟩
  · rw [hinserted.attachments] at ha
    obtain ⟨b, hb, hbid, hbin⟩ := hc
    rw [hinserted.attachments] at hb
    exact hin.mpr (h.confined c id ⟨b, hb, hbid, hin.mp hbin⟩ a ha hid)
  · rw [hinserted.attachments] at ha
    exact h.shown a ha m ⟨hmessages ▸ hm.1, hm.2⟩
  · rcases hold hfile with rfl | hfile
    · exact ⟨hfresh.detachedAt, hfresh.deletionStartedAt⟩
    · exact h.current id file hfile (hreference.mp hcurrent)
  · rcases hold hfile with rfl | hfile
    · exact absurd hfresh.boundAt hbound
    · rw [hinserted.attachments]
      exact h.source id file hfile hbound hnone
  · rcases hold hfile with rfl | hfile
    · exact absurd hfresh.boundAt hbound
    · exact h.purpose id file hfile hbound
  · rcases hold hfile with rfl | hfile
    · exact hfresh.sourceMessageId
    · exact h.unbound id file hfile hunbound

/-- An attachment after an asset was erased, if it refers to an asset still. -/
theorem of_mem_assetErased {fileId : ℕ} (h : FileDb.AssetErased fileId db db')
    {a : MessageAttachment} (ha : a ∈ db'.attachments) :
    (∃ a₀ ∈ db.attachments, a₀.messageId = a.messageId ∧ a₀.position = a.position) ∧
      ∀ id, a.fileId = some id → a ∈ db.attachments ∧ id ≠ fileId := by
  rw [h.attachments] at ha
  obtain ⟨a₀, ha₀, rfl⟩ := List.mem_map.mp ha
  refine ⟨⟨a₀, ha₀, rfl, rfl⟩, fun id hid => ?_⟩
  dsimp only at hid ⊢
  split_ifs at hid ⊢ with herased
  exact ⟨ha₀, fun heq => herased (heq ▸ hid)⟩

/-- An attachment to another asset is there still. -/
theorem mem_assetErased {fileId : ℕ} (h : FileDb.AssetErased fileId db db') {a : MessageAttachment}
    (ha : a ∈ db.attachments) (hne : a.fileId ≠ some fileId) : a ∈ db'.attachments := by
  rw [h.attachments]
  refine List.mem_map.mpr ⟨a, ha, ?_⟩
  rw [if_neg hne]

theorem Attached.erased (h : Attached db) {fileId : ℕ}
    (herased : FileDb.AssetErased fileId db db') : Attached db' := by
  have hmessages : db'.messages = db.messages :=
    congrArg ConversationTables.messages herased.tables
  have hin {c : ℕ} {a : MessageAttachment} : db'.AttachedIn c a ↔ db.AttachedIn c a := by
    unfold FileDb.AttachedIn
    rw [hmessages]
  have hold {id : ℕ} {file : FileAsset} (hfile : db'.files.get? id = some file) :
      id ≠ fileId ∧ db.files.get? id = some file := by
    rw [herased.row] at hfile
    split_ifs at hfile with hid
    exact ⟨hid, hfile⟩
  refine ⟨fun a ha => ?_, fun a ha id hid => ?_, fun c id hc a ha hid => ?_,
    fun a ha m hm hid => ?_, fun id file hfile hcurrent => ?_,
    fun id file hfile hbound hnone => ?_, fun id file hfile => h.purpose id file (hold hfile).2,
    fun id file hfile => h.unbound id file (hold hfile).2⟩
  · obtain ⟨⟨a₀, ha₀, hmessage, -⟩, -⟩ := of_mem_assetErased herased ha
    rw [hmessages, ← hmessage]
    exact h.message a₀ ha₀
  · obtain ⟨ha₀, hne⟩ := (of_mem_assetErased herased ha).2 id hid
    obtain ⟨file, hfile, hbound⟩ := h.asset a ha₀ id hid
    exact ⟨file, (herased.row id).trans ((if_neg hne).trans hfile), hbound⟩
  · obtain ⟨b, hb, hbid, hbin⟩ := hc
    have hb₀ := ((of_mem_assetErased herased hb).2 id hbid).1
    have ha₀ := ((of_mem_assetErased herased ha).2 id hid).1
    exact hin.mpr (h.confined c id ⟨b, hb₀, hbid, hin.mp hbin⟩ a ha₀ hid)
  · have hshown : ShownIn db.toConversationTables m := ⟨hmessages ▸ hm.1, hm.2⟩
    rw [herased.attachments] at ha
    obtain ⟨a₀, ha₀, rfl⟩ := List.mem_map.mp ha
    dsimp only
    split_ifs with hgone
    · -- what is erased was being deleted, and so not shown
      obtain ⟨file, hfile, hstarted⟩ := herased.started
      exact absurd (h.current fileId file hfile
        ⟨a₀, ha₀, hgone, m, hshown.1, hid, hshown.2⟩).2 hstarted
    · exact h.shown a₀ ha₀ m hshown hid
  · obtain ⟨a, ha, hid, hmessage⟩ := hcurrent
    have ha₀ := ((of_mem_assetErased herased ha).2 id hid).1
    rw [hmessages] at hmessage
    exact h.current id file (hold hfile).2 ⟨a, ha₀, hid, hmessage⟩
  · obtain ⟨hne, hfile⟩ := hold hfile
    obtain ⟨a, ha, hid, hsource⟩ := h.source id file hfile hbound hnone
    refine ⟨a, mem_assetErased herased ha ?_, hid, hsource⟩
    rw [hid]
    exact fun heq => hne (Option.some.inj heq)

/-- **Files.** No transaction of the files domain breaks the invariant. -/
theorem Attached.fileEffect (h : Attached db) (heffect : FileEffect db db') : Attached db' := by
  cases heffect with
  | same hsame => exact h.same hsame
  | deletions hstarted => exact h.deletions hstarted
  | inserted hinserted => exact h.inserted hinserted
  | erased fileId herased => exact h.erased herased

end IChat.Chat
