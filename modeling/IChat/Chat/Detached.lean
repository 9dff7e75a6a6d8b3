import IChat.Chat.AttachedFiles

/-!
# The detached state of assets

`detached_at` is meant to be null exactly while a message that is shown attaches the asset. It is
written by hand: binding an asset clears it, and an edit refreshes the assets of its plan and those
of its target. Editing and regenerating hide all that follows, too, and nothing refreshes the assets
of those messages.

`detachedExact_of_run` gives the condition under which the column is exact, and shows that it is
exact after a step only if the step meets the condition. `detachedExact_fails` is a run that does
not.
-/

namespace IChat.Chat

open Files Conversations StepSystem

variable {env : Env} {w w' : ChatWorld} {action : Action} {db db' : FileDb} {id : ℕ}
  {hidden hidden' : MessageRow → Prop} {written : ℕ → Prop}

/-! ### The property -/

/-- A bound asset that is not being deleted is detached exactly when no message shows it. -/
def DetachedExact (db : FileDb) : Prop :=
  ∀ file ∈ db.files, file.boundAt ≠ none → file.deletionStartedAt = none →
    (file.detachedAt = none ↔ db.CurrentReference file.id)

instance (db : FileDb) : Decidable (DetachedExact db) :=
  inferInstanceAs (Decidable (∀ file ∈ db.files, _))

/-- What is shown is never detached, so the one direction is what matters. -/
theorem detachedExact_iff (hdb : Attached db) :
    DetachedExact db ↔ ∀ id file, db.files.get? id = some file → file.boundAt ≠ none →
      file.deletionStartedAt = none → file.detachedAt = none → db.CurrentReference id := by
  constructor
  · intro h id file hfile hbound hkept hnone
    have hkey : file.id = id := Table.key_of_get? hfile
    rw [← hkey]
    exact (h file (Table.mem_of_get? hfile) hbound hkept).mp hnone
  · intro h file hfile hbound hkept
    have hget := Table.get?_key hfile
    exact ⟨h file.id file hget hbound hkept, fun hcurrent =>
      (hdb.current file.id file hget hcurrent).1⟩

/-- A message that is shown and attaches the asset is among the given ones. -/
def ShownAmong (p : MessageRow → Prop) (db : FileDb) (id : ℕ) : Prop :=
  ∃ a ∈ db.attachments, a.fileId = some id ∧
    ∃ m ∈ db.messages, m.id = a.messageId ∧ m.archivedAt = none ∧ p m

instance (p : MessageRow → Prop) [DecidablePred p] (db : FileDb) (id : ℕ) :
    Decidable (ShownAmong p db id) :=
  inferInstanceAs (Decidable (∃ a ∈ db.attachments, _ ∧ ∃ m ∈ db.messages, _))

theorem ShownAmong.currentReference {p : MessageRow → Prop} (h : ShownAmong p db id) :
    db.CurrentReference id := by
  obtain ⟨a, ha, hid, m, hm, hmessage, hshown, -⟩ := h
  exact ⟨a, ha, hid, m, hm, hmessage, hshown⟩

/-- What is shown is shown by messages that are hidden or by others. -/
theorem shownAmong_or (hidden : MessageRow → Prop) (h : db.CurrentReference id) :
    ShownAmong hidden db id ∨ ShownAmong (¬hidden ·) db id := by
  obtain ⟨a, ha, hid, m, hm, hmessage, hshown⟩ := h
  by_cases hm' : hidden m
  · exact .inl ⟨a, ha, hid, m, hm, hmessage, hshown, hm'⟩
  · exact .inr ⟨a, ha, hid, m, hm, hmessage, hshown, hm'⟩

/-! ### Steps that hide messages -/

/-- Some messages are hidden. The rows of some assets are written, and are exact afterwards; the
others are as they were, and shown by what is left. -/
structure Hides (hidden : MessageRow → Prop) (written : ℕ → Prop) (db db' : FileDb) : Prop where
  exact : ∀ id, written id → ∀ row', db'.files.get? id = some row' →
    row'.deletionStartedAt = none → row'.detachedAt = none → db'.CurrentReference id
  rows : ∀ id, ¬written id → db'.files.get? id = db.files.get? id
  current : ∀ id, ¬written id → (db'.CurrentReference id ↔ ShownAmong (¬hidden ·) db id)

/-- The assets of the hidden messages are written, or shown by what is left. -/
def Covers (hidden : MessageRow → Prop) (written : ℕ → Prop) (db : FileDb) : Prop :=
  ∀ id, ShownAmong hidden db id → written id ∨ ShownAmong (¬hidden ·) db id

/-- **Hiding.** The detached state stays exact if and only if the assets of the hidden messages are
covered. -/
theorem Hides.detachedExact_iff (h : Hides hidden written db db') (hdb : Attached db)
    (hdb' : Attached db') (hexact : DetachedExact db) :
    DetachedExact db' ↔ Covers hidden written db := by
  rw [Chat.detachedExact_iff hdb'] at *
  rw [Chat.detachedExact_iff hdb] at hexact
  constructor
  · intro hexact' id hshown
    by_contra hneither
    rw [not_or] at hneither
    obtain ⟨c, hc⟩ := shownTo_of_currentReference hshown.currentReference
    obtain ⟨row, hrow, hbound, hnone, hkept⟩ := hdb.of_shownTo hc
    have hcurrent := hexact' id row ((h.rows id hneither.1).trans hrow) hbound hkept hnone
    exact hneither.2 ((h.current id hneither.1).mp hcurrent)
  · intro hcovers id row' hrow' hbound hkept hnone
    by_cases hwritten : written id
    · exact h.exact id hwritten row' hrow' hkept hnone
    · rw [h.rows id hwritten] at hrow'
      rw [h.current id hwritten]
      have hcurrent := hexact id row' hrow' hbound hkept hnone
      rcases shownAmong_or hidden hcurrent with hhidden | hleft
      · exact (hcovers id hhidden).resolve_left hwritten
      · exact hleft

/-- A turn writes the assets of its plan, and those that it refreshes. -/
theorem Turned.hides {request : RunRequest} {content : String} {quoteExcerpt : Option String}
    {p : ℕ → Bool} {plan : AttachmentPlan} {ids : List ℕ} (hdb : Attached db)
    (h : Turned request content quoteExcerpt p plan ids db db') :
    Hides (fun m => m.conversationId = request.conversationId ∧ p m.position = true)
      (fun id => id ∈ plan.files.map FileAsset.id ∨ id ∈ ids) db db' := by
  obtain ⟨position, heffect⟩ := h.effect
  obtain ⟨bound, hbound, hrefreshed⟩ := h.files
  have hattachments : db'.attachments =
      db.attachments ++ FileDb.newAttachments db.messages.next plan.files :=
    hrefreshed.attachments.trans hbound.attachments
  have hmessages : db'.messages = bound.messages :=
    congrArg ConversationTables.messages hrefreshed.tables
  refine ⟨fun id hid row' hrow' hkept hnone => ?_, fun id hid => ?_, fun id hid => ?_⟩
  · by_cases hmem : id ∈ plan.files.map FileAsset.id
    · obtain ⟨file, hfile, rfl⟩ := List.mem_map.mp hmem
      obtain ⟨a, ha, haid⟩ := FileDb.exists_mem_newAttachments db.messages.next hfile
      have hshown := heffect.shownIn.mpr (.inr rfl)
      exact ⟨a, by rw [hattachments]; exact List.mem_append_right _ ha, haid, _, hshown.1,
        (FileDb.mem_newAttachments ha).1.symm, hshown.2⟩
    · have hmem' := hid.resolve_left hmem
      rw [hrefreshed.refreshed id hmem', Option.map_eq_some_iff] at hrow'
      obtain ⟨row, hrow, rfl⟩ := hrow'
      rw [FileAsset.refreshed_deletionStartedAt] at hkept
      rw [FileDb.currentReference_congr hmessages hrefreshed.attachments]
      exact (FileAsset.refreshed_detachedAt hkept).mp hnone
  · rw [not_or] at hid
    rw [hrefreshed.other id hid.2, hbound.other id hid.1]
  · rw [not_or] at hid
    constructor
    · rintro ⟨a, ha, haid, m', hm', hmessage, hshown⟩
      rw [hattachments] at ha
      rcases List.mem_append.mp ha with hold | hnew
      · rcases heffect.shownIn.mp ⟨hm', hshown⟩ with ⟨hm, hkept⟩ | rfl
        · exact ⟨a, hold, haid, m', hm.1, hmessage, hm.2, hkept⟩
        · obtain ⟨m, hm, hmid⟩ := hdb.message a hold
          have hlt := db.messages.lt_next m hm
          rw [hmid, ← hmessage] at hlt
          exact absurd hlt (lt_irrefl _)
      · obtain ⟨-, file, hfile, heq⟩ := FileDb.mem_newAttachments hnew
        rw [haid] at heq
        exact absurd (List.mem_map.mpr ⟨file, hfile, (Option.some.inj heq).symm⟩) hid.1
    · rintro ⟨a, ha, haid, m, hm, hmessage, hshown, hkept⟩
      have hshown' := heffect.shownIn.mpr (.inl ⟨⟨hm, hshown⟩, hkept⟩)
      exact ⟨a, by rw [hattachments]; exact List.mem_append_left _ ha, haid, m, hshown'.1, hmessage,
        hshown'.2⟩

/-- A regeneration writes no asset. -/
theorem hides_of_rerun {loads : String → Option Json} {request : RunRequest} {anchor : MessageRow}
    {loaded : List FileAsset} {plan : AttachmentPlan}
    (h : Requests.Rerun loads request anchor loaded plan db db') :
    Hides (fun m => m.conversationId = request.conversationId ∧ anchor.position < m.position)
      (fun _ => False) db db' := by
  obtain ⟨tables, htables, rfl⟩ := h.result
  have heffect := rerunEffect h.mem htables
  have hiff {m : MessageRow} := heffect.shownIn (m := m) h.shown
  refine ⟨nofun, fun id _ => rfl, fun id _ => ?_⟩
  constructor
  · rintro ⟨a, ha, haid, m', hm', hmessage, hshown⟩
    rcases hiff.mp ⟨hm', hshown⟩ with ⟨hm, -, hkept⟩ | rfl
    · exact ⟨a, ha, haid, m', hm.1, hmessage, hm.2, hkept⟩
    · exact ⟨a, ha, haid, anchor, h.mem, hmessage, h.shown, fun hgone => lt_irrefl _ hgone.2⟩
  · rintro ⟨a, ha, haid, m, hm, hmessage, hshown, hkept⟩
    by_cases hid : m.id = anchor.id
    · have hnew := hiff.mpr (.inr rfl)
      exact ⟨a, ha, haid, _, hnew.1, hid.symm.trans hmessage, hnew.2⟩
    · have hold := hiff.mpr (.inl ⟨⟨hm, hshown⟩, hid, hkept⟩)
      exact ⟨a, ha, haid, m, hold.1, hmessage, hold.2⟩

/-! ### Steps that hide nothing -/

/-- The assets are as they were, and what was shown is. -/
theorem DetachedExact.of_current (hexact : DetachedExact db) (hdb : Attached db)
    (hdb' : Attached db') (hfiles : db'.files = db.files)
    (hcurrent : ∀ id, db.CurrentReference id → db'.CurrentReference id) : DetachedExact db' := by
  rw [detachedExact_iff hdb'] at *
  rw [detachedExact_iff hdb] at hexact
  intro id file hfile hbound hkept hnone
  exact hcurrent id (hexact id file (hfiles ▸ hfile) hbound hkept hnone)

theorem DetachedExact.of_tables {tables : ConversationTables} (hexact : DetachedExact db)
    (hdb : Attached db) (hdb' : Attached { db with toConversationTables := tables })
    (hmessages : tables.messages = db.messages) :
    DetachedExact { db with toConversationTables := tables } := by
  refine hexact.of_current hdb hdb' rfl fun id hcurrent => ?_
  have hiff : FileDb.CurrentReference { db with toConversationTables := tables } id ↔
      db.CurrentReference id := FileDb.currentReference_congr hmessages rfl
  exact hiff.mpr hcurrent

theorem DetachedExact.fileEffect (hexact : DetachedExact db) (hdb : Attached db)
    (heffect : FileEffect db db') : DetachedExact db' := by
  have hdb' := hdb.fileEffect heffect
  have hmessages : db'.messages = db.messages :=
    congrArg ConversationTables.messages heffect.tables
  cases heffect with
  | same hsame =>
    refine hexact.of_current hdb hdb' hsame.files fun id hcurrent => ?_
    exact (FileDb.currentReference_congr hmessages hsame.attachments).mpr hcurrent
  | deletions hstarted =>
    rw [detachedExact_iff hdb'] at *
    rw [detachedExact_iff hdb] at hexact
    intro id file hfile hbound hkept hnone
    rw [FileDb.currentReference_congr hmessages hstarted.attachments]
    rcases hstarted.row id with hsame | ⟨-, _, _, -, hmarked⟩
    · exact hexact id file (hsame ▸ hfile) hbound hkept hnone
    · rw [hmarked] at hfile
      cases hfile
      cases hkept
  | inserted hinserted =>
    obtain ⟨fresh, hfresh, hrow⟩ := hinserted.row
    rw [detachedExact_iff hdb'] at *
    rw [detachedExact_iff hdb] at hexact
    intro id file hfile hbound hkept hnone
    rw [FileDb.currentReference_congr hmessages hinserted.attachments]
    rw [hrow] at hfile
    split_ifs at hfile
    · cases hfile
      exact absurd hfresh.boundAt hbound
    · exact hexact id file hfile hbound hkept hnone
  | erased fileId herased =>
    rw [detachedExact_iff hdb'] at *
    rw [detachedExact_iff hdb] at hexact
    intro id file hfile hbound hkept hnone
    rw [herased.row] at hfile
    split_ifs at hfile with hne
    obtain ⟨a, ha, hid, hmessage⟩ := hexact id file hfile hbound hkept hnone
    refine ⟨a, mem_assetErased herased ha ?_, hid, hmessages ▸ hmessage⟩
    rw [hid]
    exact fun heq => hne (Option.some.inj heq)

/-- A purge begins the deletion of every asset of its conversation. -/
theorem DetachedExact.purged {conversationId : ℕ} {files : List FileAsset}
    (hexact : DetachedExact db) (hdb : Attached db) (hready : PurgeReady conversationId files db)
    (hpurged : Purged conversationId files db db') : DetachedExact db' := by
  rw [detachedExact_iff (hdb.purged hready hpurged)]
  rw [detachedExact_iff hdb] at hexact
  intro id row' hrow' hbound hkept hnone
  obtain ⟨row, hrow, heq, -, hdeletion⟩ := hpurged.row id row' hrow'
  have hunread : id ∉ files.map FileAsset.id := by
    intro hmem
    obtain ⟨file, hfile, rfl⟩ := List.mem_map.mp hmem
    exact hpurged.deletions hready.started file hfile row' hrow' hkept
  rw [hdeletion.resolve_right hunread] at hkept
  rw [heq] at hbound hnone
  obtain ⟨a, ha, hid, m, hm, hmessage, hshown⟩ := hexact id row hrow hbound hkept hnone
  have haway : ¬db.AttachedIn conversationId a := fun hin =>
    hunread (hready.covered id ⟨a, ha, hid, hin⟩)
  refine ⟨a, hpurged.mem_attachments.mpr ⟨ha, haway⟩, hid, m, (hpurged.messages m).mpr ⟨hm, ?_⟩,
    hmessage, hshown⟩
  exact fun hhere => haway ⟨m, hm, hmessage, hhere⟩

/-! ### The condition -/

/-- Where an action cuts a thread: the conversation, and the first position that it hides. -/
def cutPosition (w : ChatWorld) : Action → Option (ℕ × ℕ)
  | .commit conversationId =>
    match w.sessions conversationId with
    | some (.edit _ messageId _ _ _) =>
      (w.db.messages.get? messageId).map fun target => (conversationId, target.position)
    | some (.regenerate request messageId _) =>
      match w.db.regenerateTarget request messageId with
      | .ok anchor => some (conversationId, anchor.position + 1)
      | .error _ => none
    | _ => none
  | _ => none

/-- The action hides the message. -/
def HiddenBy (w : ChatWorld) (action : Action) (m : MessageRow) : Prop :=
  ∃ cut ∈ cutPosition w action, m.conversationId = cut.1 ∧ cut.2 ≤ m.position

instance (w : ChatWorld) (action : Action) : DecidablePred (HiddenBy w action) :=
  fun _ => inferInstanceAs (Decidable (∃ cut ∈ cutPosition w action, _))

/-- The assets whose detached state an action refreshes: an edit those that it attaches and those of
its target. -/
def refreshedIds (w : ChatWorld) : Action → List ℕ
  | .commit conversationId =>
    match w.sessions conversationId with
    | some (.edit _ _ _ attachmentIds loaded) =>
      attachmentIds.getD (loaded.map FileAsset.id) ++ loaded.map FileAsset.id
    | _ => []
  | _ => []

/-- Every asset of the messages that an action hides is refreshed, or shown by another message. -/
def RefreshesHidden (w : ChatWorld) (action : Action) : Prop :=
  Covers (HiddenBy w action) (· ∈ refreshedIds w action) w.db

instance (w : ChatWorld) (action : Action) : Decidable (RefreshesHidden w action) :=
  decidable_of_iff (∀ a ∈ w.db.attachments, ∀ id ∈ a.fileId,
    ShownAmong (HiddenBy w action) w.db id →
    id ∈ refreshedIds w action ∨ ShownAmong (¬HiddenBy w action ·) w.db id) (by
    constructor
    · rintro h id hshown
      have hshown' := hshown
      obtain ⟨a, ha, hid, -⟩ := hshown'
      exact h a ha id hid hshown
    · exact fun h _ _ id _ => h id)

theorem refreshesHidden_of_cut (h : cutPosition w action = none) : RefreshesHidden w action := by
  rintro id ⟨a, ha, hid, m, hm, hmessage, hshown, cut, hcut, -⟩
  rw [h] at hcut
  cases hcut

theorem Covers.congr (hhidden : ∀ m, hidden m ↔ hidden' m) {written' : ℕ → Prop}
    (hwritten : ∀ id, written id ↔ written' id) :
    Covers hidden written db ↔ Covers hidden' written' db := by
  have heq : hidden = hidden' := funext fun m => propext (hhidden m)
  have heq' : written = written' := funext fun id => propext (hwritten id)
  rw [heq, heq']

/-! ### The step -/

/-- An edit that commits. -/
theorem detachedExact_edit {conversationId : ℕ} {request : RunRequest} {newContent : String}
    {attachmentIds : Option (List ℕ)} {target : MessageRow} (hdb : Attached w.db)
    (hexact : DetachedExact w.db) (hshown : ShownIn w.db.toConversationTables target)
    (hhere : target.conversationId = conversationId)
    (hrequest : request.conversationId = conversationId)
    (hsession : w.sessions conversationId = some (.edit request target.id newContent attachmentIds
      (w.db.currentAttachmentFiles target.id)))
    (hresult : w.db.editUserMessage env.loads env.settings request target.id newContent
      attachmentIds (w.db.currentAttachmentFiles target.id) = .ok db') :
    DetachedExact db' ↔ RefreshesHidden w (.commit conversationId) := by
  obtain ⟨plan, hturned, hplan⟩ := turned_of_edit hdb hshown (hhere.trans hrequest.symm) hresult
  refine ((hturned.hides hdb).detachedExact_iff hdb (hdb.turned hturned) hexact).trans ?_
  have hcut : cutPosition w (.commit conversationId) = some (conversationId, target.position) := by
    simp only [cutPosition, hsession, Table.get?_key hshown.1, Option.map_some]
  have hids : refreshedIds w (.commit conversationId) = plan.files.map FileAsset.id ++
      (w.db.currentAttachmentFiles target.id).map FileAsset.id := by
    simp only [refreshedIds, hsession, hplan]
  refine Covers.congr (fun m => ?_) fun id => ?_
  · rw [HiddenBy, hcut, hrequest]
    simp
  · rw [hids, List.mem_dedup, List.mem_append]
    exact or_iff_right_of_imp .inl

/-- A regeneration that commits. -/
theorem detachedExact_regenerate {conversationId messageId : ℕ} {request : RunRequest}
    {loaded : List FileAsset} (hdb : Attached w.db) (hexact : DetachedExact w.db)
    (hrequest : request.conversationId = conversationId)
    (hsession : w.sessions conversationId = some (.regenerate request messageId loaded))
    (hresult : w.db.regenerateFromMessage env.loads env.settings request messageId loaded =
      .ok db') : DetachedExact db' ↔ RefreshesHidden w (.commit conversationId) := by
  obtain ⟨anchor, plan, hanchor, hrerun⟩ := Requests.regenerateFromMessage_eq_ok hresult
  have hdb' := (stepSafe_rerun hdb hrerun).1
  refine ((hides_of_rerun hrerun).detachedExact_iff hdb hdb' hexact).trans ?_
  have hcut : cutPosition w (.commit conversationId) =
      some (conversationId, anchor.position + 1) := by
    simp only [cutPosition, hsession, hanchor]
  have hids : refreshedIds w (.commit conversationId) = [] := by
    simp only [refreshedIds, hsession]
  refine Covers.congr (fun m => ?_) fun id => ?_
  · rw [HiddenBy, hcut, hrequest]
    simp only [Option.mem_some_iff, exists_eq_left', Nat.succ_le_iff]
  · simp [hids]

/-- **The step.** After a step the detached state is exact if and only if the step has refreshed
the assets of what it has hidden. -/
theorem detachedExact_step_iff (hw : Safe env.loads w) (hexact : DetachedExact w.db)
    (h : step env w action = some w') : DetachedExact w'.db ↔ RefreshesHidden w action := by
  have hdb := hw.attached
  have hdb' := (step_safe hw h).attached
  -- an action that cuts nothing refreshes nothing, so both sides hold
  have hkept (hcut : cutPosition w action = none) (hexact' : DetachedExact w'.db) :
      DetachedExact w'.db ↔ RefreshesHidden w action :=
    iff_of_true hexact' (refreshesHidden_of_cut hcut)
  cases action with
  | files =>
    obtain ⟨db, hrun, rfl⟩ := ChatWorld.write_eq_some h
    exact hkept rfl (hexact.fileEffect hdb (FileTx.effect hrun))
  | createConversation =>
    obtain ⟨tables, hresult, rfl⟩ := ChatWorld.writeTables_eq_some h
    cases hresult
    exact hkept rfl (hexact.of_tables hdb hdb' rfl)
  | deleteConversation =>
    obtain ⟨-, h⟩ := Option.ite_none_right_eq_some.mp h
    obtain ⟨tables, hresult, rfl⟩ := ChatWorld.writeTables_eq_some h
    exact hkept rfl (hexact.of_tables hdb hdb' (deleteConversation_messages hresult).1)
  | restoreConversation =>
    obtain ⟨-, h⟩ := Option.ite_none_right_eq_some.mp h
    obtain ⟨tables, hresult, rfl⟩ := ChatWorld.writeTables_eq_some h
    exact hkept rfl (hexact.of_tables hdb hdb' (restoreConversation_messages hresult).1)
  | submit =>
    obtain ⟨-, h⟩ := Option.ite_none_right_eq_some.mp h
    obtain ⟨db, hresult, rfl⟩ := ChatWorld.write_eq_some h
    obtain ⟨quoteExcerpt, plan, hturned, -⟩ := turned_of_submit hresult
    refine hkept rfl (((hturned.hides hdb).detachedExact_iff hdb hdb' hexact).mpr ?_)
    rintro id ⟨a, ha, hid, m, hm, hmessage, hshown, hhidden⟩
    -- a submission hides no message
    exact absurd hhidden.2 Bool.false_ne_true
  | beginEdit | beginRegenerate =>
    obtain ⟨-, h⟩ := Option.ite_none_right_eq_some.mp h
    split at h
    · cases h
    · cases h
      exact hkept rfl hexact
  | beginPurge =>
    obtain ⟨-, h⟩ := Option.ite_none_right_eq_some.mp h
    cases h
    exact hkept rfl hexact
  | readPurged =>
    obtain ⟨_, _, _, _, -, rfl⟩ := ChatWorld.step_readPurged h
    exact hkept rfl hexact
  | commit conversationId =>
    obtain ⟨session, db, hsession, hresult, rfl⟩ := ChatWorld.step_commit h
    have hok := hw.sessions _ _ hsession
    cases hok with
    | edit shown here request_here =>
      exact detachedExact_edit hdb hexact shown here request_here hsession hresult
    | regenerate target_shown target_here shown here request_here =>
      exact detachedExact_regenerate hdb hexact request_here hsession hresult
    | @purge now unread files exclusive covered started old bound =>
      obtain ⟨hread, hpurge⟩ := ite_error_eq_ok_iff.mp hresult
      obtain rfl : unread = [] := not_not.mp hread
      have hready : PurgeReady conversationId files w.db :=
        (hw.sessions _ _ hsession).purgeReady
      refine hkept ?_ (hexact.purged hdb hready (purgeConversation_eq_ok hpurge))
      simp only [cutPosition, hsession]
  | rollback =>
    cases h
    exact hkept rfl hexact
  | advanceRun =>
    obtain ⟨tables, hresult, rfl⟩ := ChatWorld.writeTables_eq_some h
    obtain ⟨run, -, -, hmoved⟩ := advanceRun_eq_ok hresult
    exact hkept rfl (hexact.of_tables hdb hdb' hmoved.messages)
  | restoreSources =>
    obtain ⟨_, rfl⟩ := ChatWorld.step_restoreSources h
    exact hkept rfl hexact
  | registerSources =>
    obtain ⟨_, rfl⟩ := ChatWorld.step_registerSources h
    exact hkept rfl hexact
  | succeedRun =>
    obtain ⟨_, _, _, -, -, -, hresult, rfl⟩ := ChatWorld.step_succeedRun h
    obtain ⟨run, final, rows, -, -, -, -, heffect⟩ := succeedRun_eq_ok hresult
    refine hkept rfl (hexact.of_current hdb hdb' rfl ?_)
    rintro id ⟨a, ha, hid, m, hm, hmessage, hshown⟩
    exact ⟨a, ha, hid, m, (heffect.messages m).mpr (.inl hm), hmessage, hshown⟩
  | endRun =>
    obtain ⟨-, h⟩ := Option.ite_none_right_eq_some.mp h
    obtain ⟨tables, hresult, rfl⟩ := ChatWorld.writeTables_eq_some h
    obtain ⟨run, rows, -, -, -, hmoved⟩ := endRun_eq_ok hresult
    exact hkept rfl (hexact.of_tables hdb hdb' hmoved.messages)

/-! ### Reclaiming -/

/-- What is shown is never reclaimed. -/
theorem not_reclaimable_of_currentReference (hdb : Attached db) {file : FileAsset}
    (hfile : db.files.get? id = some file) (hcurrent : db.CurrentReference id) (s : Files.Settings)
    (now : ℕ) : ¬FileDb.Reclaimable s now file := by
  obtain ⟨hdetached, -⟩ := hdb.current id file hfile hcurrent
  rintro ⟨-, -, ⟨hunbound, -⟩ | ⟨t, ht, -⟩⟩
  · obtain ⟨a, ha, hid, -⟩ := hcurrent
    exact hdb.not_attached hfile hunbound a ha hid
  · rw [hdetached] at ht
    cases ht

/-- What is detached is reclaimed once its retention is over. -/
theorem reclaimable_of_detached (hdb : Attached db) {file : FileAsset}
    (hfile : db.files.get? id = some file) (hbound : file.boundAt ≠ none)
    (hkept : file.deletionStartedAt = none) (hdetached : file.detachedAt ≠ none)
    (s : Files.Settings) :
    ∃ t, ∀ now, t ≤ now → FileDb.Reclaimable s now file := by
  obtain ⟨moment, hmoment⟩ := Option.ne_none_iff_exists'.mp hdetached
  refine ⟨moment + s.detachedRetentionSeconds, fun now hnow => ?_⟩
  exact ⟨hdb.purpose id file hfile hbound, hkept, .inr ⟨moment, hmoment, hnow⟩⟩

/-! ### The result -/

theorem detachedExact_empty : DetachedExact .empty :=
  fun _ hfile => absurd hfile Table.not_mem_empty

/-- **Detached state.** In every run whose edits and regenerations refresh the assets of what they
hide, the detached state is exact in every state: what is shown is never reclaimed, and what is not
will be. A step that does not leaves it wrong. -/
theorem detachedExact_of_run (env : Env) (actions : List Action) (w : ChatWorld)
    (hrun : run (step env) .init actions = some w)
    (halong : Along (step env) RefreshesHidden .init actions) :
    DetachedExact w.db ∧
    (∀ file ∈ w.db.files, file.boundAt ≠ none → file.deletionStartedAt = none →
      (w.db.CurrentReference file.id → ∀ now, ¬FileDb.Reclaimable env.settings now file) ∧
      (¬w.db.CurrentReference file.id →
        ∃ t, ∀ now, t ≤ now → FileDb.Reclaimable env.settings now file)) ∧
    ∀ action w', step env w action = some w' →
      (DetachedExact w'.db ↔ RefreshesHidden w action) := by
  let Inv (w : ChatWorld) : Prop := Safe env.loads w ∧ DetachedExact w.db
  have hstep : ∀ w a w', Inv w → RefreshesHidden w a → step env w a = some w' → Inv w' := by
    rintro w a w' ⟨hw, hexact⟩ hrefreshes h
    exact ⟨step_safe hw h, (detachedExact_step_iff hw hexact h).mpr hrefreshes⟩
  have hinv : Inv w := run_invariant_along hstep ⟨safe_init, detachedExact_empty⟩ halong hrun
  obtain ⟨hw, hexact⟩ := hinv
  refine ⟨hexact, fun file hfile hbound hkept => ⟨fun hcurrent now => ?_, fun hhidden => ?_⟩,
    fun action w' h => detachedExact_step_iff hw hexact h⟩
  · exact not_reclaimable_of_currentReference hw.attached (Table.get?_key hfile) hcurrent _ _
  · refine reclaimable_of_detached hw.attached (Table.get?_key hfile) hbound hkept ?_ _
    exact fun hnone => hhidden ((hexact file hfile hbound hkept).mp hnone)

/-- The user edits the message that shows the file, and leaves the file out. -/
def editText : List Action :=
  submitText ++ [.endRun 0 .cancelled [], .beginEdit textRequest 0 "Never mind." (some []),
    .commit 0]

theorem detachedExact_of_run_editText :
    ∃ w, run (step plainEnv) .init editText = some w ∧
      (∃ file ∈ w.db.files, file.boundAt ≠ none ∧ file.detachedAt ≠ none) ∧ DetachedExact w.db := by
  have hreached : ∃ w, run (step plainEnv) .init editText = some w ∧
      ∃ file ∈ w.db.files, file.boundAt ≠ none ∧ file.detachedAt ≠ none :=
    exists_run (by decide +kernel)
  have halong : Along (step plainEnv) RefreshesHidden .init editText := by decide +kernel
  obtain ⟨w, hrun, hdetached⟩ := hreached
  exact ⟨w, hrun, hdetached, (detachedExact_of_run plainEnv editText w hrun halong).1⟩

/-- The user edits the message before the one that shows the file. -/
def editBeforeText : List Action :=
  .createConversation 1 :: uploadText 0 ++
    [.submit textRequest "Hello." [] none, .endRun 0 .cancelled [],
      .submit textRequest "Read this." [0] none, .endRun 1 .cancelled [],
      .beginEdit textRequest 0 "Good morning." none, .commit 0]

/-- No message shows the file any more, and it is not detached: it will never be reclaimed. -/
theorem detachedExact_fails :
    ∃ w, run (step plainEnv) .init editBeforeText = some w ∧ ¬DetachedExact w.db ∧
      ∃ file ∈ w.db.files, file.boundAt ≠ none ∧ file.deletionStartedAt = none ∧
        ¬w.db.CurrentReference file.id ∧ file.detachedAt = none := by
  have hreached : ∃ w, run (step plainEnv) .init editBeforeText = some w ∧
      (¬DetachedExact w.db ∧ ∃ file ∈ w.db.files, file.boundAt ≠ none ∧
        file.deletionStartedAt = none ∧ ¬w.db.CurrentReference file.id ∧ file.detachedAt = none) :=
    exists_run (by decide +kernel)
  exact hreached

end IChat.Chat
