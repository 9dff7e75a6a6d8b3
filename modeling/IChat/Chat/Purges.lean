import IChat.Chat.BoundTurns

/-!
# Purged conversations

A purge deletes the messages of a conversation with their attachments, and begins the deletion of
the assets that it has read. The assets that it reads are those that only this conversation
attaches, which are all that it attaches (`PurgeReady`), so no other conversation loses an asset and
no asset of this one stays behind.
-/

namespace IChat.Chat

open Files Conversations

variable {db db' : FileDb} {conversationId id : ℕ} {files : List FileAsset}

/-- What a purge may begin to delete. -/
structure PurgeReady (conversationId : ℕ) (files : List FileAsset) (db : FileDb) : Prop where
  exclusive : ∀ file ∈ files, ∀ c, AttachedTo db c file.id → c = conversationId
  covered : ∀ id, AttachedTo db conversationId id → id ∈ files.map FileAsset.id
  started : ∀ file ∈ files, file.deletionStartedAt ≠ none → db.Started file.id

/-- What a purge does. -/
structure Purged (conversationId : ℕ) (files : List FileAsset) (db db' : FileDb) : Prop where
  messages : ∀ m, m ∈ db'.messages ↔ m ∈ db.messages ∧ m.conversationId ≠ conversationId
  runs : ∀ run, run ∈ db'.runs ↔ run ∈ db.runs ∧ run.conversationId ≠ conversationId
  attachments : db'.attachments = db.attachments.filter fun a => ¬db.AttachedIn conversationId a
  next : db'.files.next = db.files.next
  nextRun : db'.runs.next = db.runs.next
  row : ∀ id row', db'.files.get? id = some row' → ∃ row, db.files.get? id = some row ∧
    row' = { row with
      sourceMessageId := row'.sourceMessageId, deletionStartedAt := row'.deletionStartedAt } ∧
    (row'.sourceMessageId = row.sourceMessageId ∨ row'.sourceMessageId = none ∧
      ∃ a : MessageAttachment, row.sourceMessageId = some a.messageId ∧
        db.AttachedIn conversationId a) ∧
    (row'.deletionStartedAt = row.deletionStartedAt ∨ id ∈ files.map FileAsset.id)
  kept : ∀ id row, db.files.get? id = some row → ∃ row', db'.files.get? id = some row'
  deletions : (∀ file ∈ files, file.deletionStartedAt ≠ none → db.Started file.id) →
    ∀ file ∈ files, db'.Started file.id

/-- The row of an asset after its source message was deleted with a conversation. -/
theorem get?_deleteMessages {row' : FileAsset}
    (h : (db.deleteMessages conversationId).files.get? id = some row') :
    ∃ row, db.files.get? id = some row ∧
      row' = { row with sourceMessageId := row'.sourceMessageId } ∧
      (row'.sourceMessageId = row.sourceMessageId ∨ row'.sourceMessageId = none ∧
        ∃ a : MessageAttachment, row.sourceMessageId = some a.messageId ∧
          db.AttachedIn conversationId a) := by
  rw [FileDb.deleteMessages, Table.get?_map, Option.map_eq_some_iff] at h
  obtain ⟨row, hrow, rfl⟩ := h
  refine ⟨row, hrow, rfl, ?_⟩
  dsimp only
  split_ifs with hdoomed
  · obtain ⟨messageId, hsource, hmessage⟩ := hdoomed
    exact .inr ⟨rfl, ⟨messageId, none, 0⟩, hsource, of_decide_eq_true hmessage⟩
  · exact .inl rfl

theorem purgeConversation_eq_ok {now : ℕ}
    (h : db.purgeConversation conversationId files now = .ok db') :
    Purged conversationId files db db' := by
  obtain ⟨purged, hpurged, h⟩ := bind_eq_ok_iff.mp h
  cases h
  have hmarked := FileDb.beginAssetDeletions_deletionsStarted hpurged
  have hmessages : purged.messages = _ := congrArg ConversationTables.messages hmarked.tables
  have hruns : purged.runs = _ := congrArg ConversationTables.runs hmarked.tables
  have hdeleted {id : ℕ} (hid : db.Started id) : (db.deleteMessages conversationId).Started id := by
    intro row' hrow'
    obtain ⟨row, hrow, heq, -⟩ := get?_deleteMessages hrow'
    rw [heq]
    exact hid row hrow
  refine ⟨fun m => ?_, fun run => ?_, ?_, hmarked.next, ?_, fun id row' hrow' => ?_,
    fun id row hrow => ?_, fun hstarted => ?_⟩
  · rw [hmessages]
    refine Table.mem_filter.trans ?_
    rw [decide_eq_true_eq]
  · rw [hruns]
    refine Table.mem_filter.trans ?_
    rw [decide_eq_true_eq]
  · refine hmarked.attachments.trans ?_
    refine List.filter_congr fun a _ => ?_
    rw [← decide_not]
    rfl
  · rw [hruns]
    rfl
  · obtain ⟨row₁, hrow₁, heq₁, hmoved⟩ := hmarked.get?_eq hrow'
    obtain ⟨row, hrow, heq, hsource⟩ := get?_deleteMessages hrow₁
    refine ⟨row, hrow, ?_, ?_, ?_⟩
    · rw [heq₁, heq]
    · rw [heq₁]
      exact hsource
    · refine hmoved.imp_left fun hsame => ?_
      rw [hsame, heq]
  · have hrow₁ : ∃ row₁, (db.deleteMessages conversationId).files.get? id = some row₁ := by
      rw [FileDb.deleteMessages, Table.get?_map, hrow]
      exact ⟨_, rfl⟩
    obtain ⟨row₁, hrow₁⟩ := hrow₁
    rcases hmarked.row id with hsame | ⟨-, _, _, -, hrow'⟩
    · exact ⟨row₁, hsame.trans hrow₁⟩
    · exact ⟨_, hrow'⟩
  · have hstart := FileDb.beginAssetDeletions_started hpurged fun file hfile hdeletion =>
      hdeleted (hstarted file hfile hdeletion)
    exact hstart

namespace Purged

/-- What is left of the attachments. -/
theorem mem_attachments (h : Purged conversationId files db db') {a : MessageAttachment} :
    a ∈ db'.attachments ↔ a ∈ db.attachments ∧ ¬db.AttachedIn conversationId a := by
  rw [h.attachments, List.mem_filter, decide_eq_true_eq]

/-- An attachment that is left stays in its conversation. -/
theorem attachedIn_iff (h : Purged conversationId files db db') {a : MessageAttachment}
    (ha : a ∈ db'.attachments) {c : ℕ} : db'.AttachedIn c a ↔ db.AttachedIn c a := by
  constructor
  · rintro ⟨m, hm, hid, hhere⟩
    exact ⟨m, ((h.messages m).mp hm).1, hid, hhere⟩
  · rintro ⟨m, hm, hid, hhere⟩
    refine ⟨m, (h.messages m).mpr ⟨hm, fun hpurged => ?_⟩, hid, hhere⟩
    exact (h.mem_attachments.mp ha).2 ⟨m, hm, hid, hpurged⟩

theorem attachedTo (h : Purged conversationId files db db') {c : ℕ} (hc : AttachedTo db' c id) :
    AttachedTo db c id ∧ c ≠ conversationId := by
  obtain ⟨a, ha, hid, hin⟩ := hc
  obtain ⟨hold, hkept⟩ := h.mem_attachments.mp ha
  rw [h.attachedIn_iff ha] at hin
  exact ⟨⟨a, hold, hid, hin⟩, fun heq => hkept (heq ▸ hin)⟩

theorem shownTo (h : Purged conversationId files db db') {c : ℕ} (hc : ShownTo db' c id) :
    ShownTo db c id := by
  obtain ⟨a, ha, hid, m, hm, hmessage, hhere⟩ := hc
  exact ⟨a, (h.mem_attachments.mp ha).1, hid, m, ⟨((h.messages m).mp hm.1).1, hm.2⟩, hmessage,
    hhere⟩

end Purged

/-- **Purges.** A purge that has read what it may delete keeps the invariant. -/
theorem Attached.purged (h : Attached db) (hready : PurgeReady conversationId files db)
    (hpurged : Purged conversationId files db db') : Attached db' := by
  have hexclusive {id c : ℕ} (hmem : id ∈ files.map FileAsset.id) (hc : AttachedTo db c id) :
      c = conversationId := by
    obtain ⟨file, hfile, rfl⟩ := List.mem_map.mp hmem
    exact hready.exclusive file hfile c hc
  refine ⟨fun a ha => ?_, fun a ha id hid => ?_, fun c id hc a ha hid => ?_,
    fun a ha m hm => ?_, fun id row' hrow' hcurrent => ?_, fun id row' hrow' hbound hnone => ?_,
    fun id row' hrow' hbound => ?_, fun id row' hrow' hunbound => ?_⟩
  · obtain ⟨hold, hkept⟩ := hpurged.mem_attachments.mp ha
    obtain ⟨m, hm, hid⟩ := h.message a hold
    exact ⟨m, (hpurged.messages m).mpr ⟨hm, fun hhere => hkept ⟨m, hm, hid, hhere⟩⟩, hid⟩
  · obtain ⟨row, hrow, hbound⟩ := h.asset a (hpurged.mem_attachments.mp ha).1 id hid
    obtain ⟨row', hrow'⟩ := hpurged.kept id row hrow
    obtain ⟨row₀, hrow₀, heq, -, -⟩ := hpurged.row id row' hrow'
    rw [hrow] at hrow₀
    cases hrow₀
    exact ⟨row', hrow', by rw [heq]; exact hbound⟩
  · rw [hpurged.attachedIn_iff ha]
    exact h.confined c id (hpurged.attachedTo hc).1 a (hpurged.mem_attachments.mp ha).1 hid
  · exact h.shown a (hpurged.mem_attachments.mp ha).1 m ⟨((hpurged.messages m).mp hm.1).1, hm.2⟩
  · obtain ⟨row, hrow, heq, -, hdeletion⟩ := hpurged.row id row' hrow'
    obtain ⟨c, hc⟩ := shownTo_of_currentReference hcurrent
    obtain ⟨hdetached, hkept⟩ := h.current id row hrow (hpurged.shownTo hc).currentReference
    refine ⟨by rw [heq]; exact hdetached, ?_⟩
    rcases hdeletion with hsame | hmem
    · exact hsame.trans hkept
    · -- what the purge has read is attached in its conversation only
      obtain ⟨hattached, hne⟩ := hpurged.attachedTo hc.attachedTo
      exact absurd (hexclusive hmem hattached) hne
  · obtain ⟨row, hrow, heq, hsource, hdeletion⟩ := hpurged.row id row' hrow'
    have hunread : id ∉ files.map FileAsset.id := by
      intro hmem
      obtain ⟨file, hfile, rfl⟩ := List.mem_map.mp hmem
      exact hpurged.deletions hready.started file hfile row' hrow' hnone
    have hnone₀ : row.deletionStartedAt = none := by
      rcases hdeletion with hsame | hmem
      · exact hsame.symm.trans hnone
      · exact absurd hmem hunread
    rw [heq] at hbound
    obtain ⟨a, ha, hid, hfirst⟩ := h.source id row hrow hbound hnone₀
    have haway : ¬db.AttachedIn conversationId a := fun hin =>
      hunread (hready.covered id ⟨a, ha, hid, hin⟩)
    refine ⟨a, hpurged.mem_attachments.mpr ⟨ha, haway⟩, hid, ?_⟩
    rcases hsource with hsame | ⟨-, b, hb, hin⟩
    · exact hsame.trans hfirst
    · have heqId : b.messageId = a.messageId := Option.eq_some_unique hb hfirst
      obtain ⟨m, hm, hidm, hhere⟩ := hin
      exact absurd ⟨m, hm, hidm.trans heqId, hhere⟩ haway
  · obtain ⟨row, hrow, heq, -, -⟩ := hpurged.row id row' hrow'
    rw [heq] at hbound ⊢
    exact h.purpose id row hrow hbound
  · obtain ⟨row, hrow, heq, hsource, -⟩ := hpurged.row id row' hrow'
    rw [heq] at hunbound
    rcases hsource with hsame | ⟨hnone, -⟩
    · exact hsame.trans (h.unbound id row hrow hunbound)
    · exact hnone

end IChat.Chat
