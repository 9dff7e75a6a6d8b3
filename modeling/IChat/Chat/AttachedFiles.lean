import IChat.Chat.AttachmentSafety

/-!
# Attached files are safe

What the invariant of the system means for the assets of messages: what is shown is not deleted,
what is bound is not cancelled, and an asset that a request accepts unbound is bound to the new
message, and to no other for as long as it exists.
-/

namespace IChat.Chat

open Files Conversations StepSystem

variable {env : Env} {w w' : ChatWorld} {action : Action} {db db' : FileDb} {id messageId : ℕ}

/-! ### Planned assets -/

/-- The assets that the plan of a request holds, when its transaction commits. -/
def plannedIds (w : ChatWorld) : Action → List ℕ
  | .submit _ _ attachmentIds _ => attachmentIds
  | .commit conversationId =>
    match w.sessions conversationId with
    | some (.edit _ _ _ attachmentIds loaded) => attachmentIds.getD (loaded.map FileAsset.id)
    | some (.regenerate _ _ loaded) => loaded.map FileAsset.id
    | _ => []
  | _ => []

/-- The asset is bound to the message, which is the only one that attaches it. -/
structure BoundFirst (db : FileDb) (id messageId : ℕ) : Prop where
  row : ∃ file, db.files.get? id = some file ∧ file.boundAt ≠ none ∧
    file.sourceMessageId = some messageId
  attached : ∃ a ∈ db.attachments, a.fileId = some id
  only : ∀ a ∈ db.attachments, a.fileId = some id → a.messageId = messageId

/-- A row after a refresh. -/
theorem exists_row_of_refreshed {now : ℕ} {ids : List ℕ} {row : FileAsset}
    (h : FileDb.Refreshed now ids db db') (hrow : db.files.get? id = some row) :
    ∃ row', db'.files.get? id = some row' ∧ row' = { row with detachedAt := row'.detachedAt } := by
  have hsome : ∃ row', db'.files.get? id = some row' := by
    by_cases hid : id ∈ ids
    · rw [h.refreshed id hid, hrow]
      exact ⟨_, rfl⟩
    · exact ⟨row, (h.other id hid).trans hrow⟩
  obtain ⟨row', hrow'⟩ := hsome
  obtain ⟨row₀, hrow₀, heq, -⟩ := row_of_refreshed h hrow'
  rw [hrow] at hrow₀
  cases hrow₀
  exact ⟨row', hrow', heq⟩

/-- A turn binds an asset that was unbound to its message. -/
theorem Turned.boundFirst {request : RunRequest} {content : String} {quoteExcerpt : Option String}
    {p : ℕ → Bool} {plan : AttachmentPlan} {ids : List ℕ} {file : FileAsset} (hdb : Attached db)
    (h : Turned request content quoteExcerpt p plan ids db db')
    (hid : id ∈ plan.files.map FileAsset.id) (hfile : db.files.get? id = some file)
    (hunbound : file.boundAt = none) :
    (∃ m, m.id = db.messages.next ∧ ShownIn db'.toConversationTables m ∧ m.role = .user) ∧
      BoundFirst db' id db.messages.next := by
  obtain ⟨position, heffect⟩ := h.effect
  obtain ⟨bound, hbound, hrefreshed⟩ := h.files
  obtain ⟨planned, hplanned, rfl⟩ := List.mem_map.mp hid
  have hsame : planned = file := by
    have hrow := h.binding.holds planned hplanned
    rw [hfile] at hrow
    exact (Option.some.inj hrow).symm
  subst hsame
  have hattachments : db'.attachments =
      db.attachments ++ FileDb.newAttachments db.messages.next plan.files :=
    hrefreshed.attachments.trans hbound.attachments
  refine ⟨⟨_, rfl, heffect.shownIn.mpr (.inr rfl), rfl⟩, ?_, ?_, fun a ha haid => ?_⟩
  · obtain ⟨row', hrow', heq⟩ := exists_row_of_refreshed hrefreshed (hbound.bound planned hplanned)
    refine ⟨row', hrow', ?_, ?_⟩
    · rw [heq]
      exact FileAsset.bind_boundAt _ _ _
    · rw [heq]
      exact (FileAsset.bind_sourceMessageId _ _ _).trans (if_pos hunbound)
  · obtain ⟨a, ha, haid⟩ := FileDb.exists_mem_newAttachments db.messages.next hplanned
    exact ⟨a, by rw [hattachments]; exact List.mem_append_right _ ha, haid⟩
  · rw [hattachments] at ha
    rcases List.mem_append.mp ha with hold | hnew
    · exact absurd haid (hdb.not_attached hfile hunbound a hold)
    · exact (FileDb.mem_newAttachments hnew).1

/-- **Binding.** A request that commits binds what its plan holds unbound. -/
theorem boundFirst_of_step {file : FileAsset} (hw : Safe env.loads w)
    (h : step env w action = some w') (hid : id ∈ plannedIds w action)
    (hfile : w.db.files.get? id = some file) (hunbound : file.boundAt = none) :
    (∃ m, m.id = w.db.messages.next ∧ ShownIn w'.db.toConversationTables m ∧ m.role = .user) ∧
      BoundFirst w'.db id w.db.messages.next := by
  cases action with
  | submit =>
    obtain ⟨-, h⟩ := Option.ite_none_right_eq_some.mp h
    obtain ⟨db, hresult, rfl⟩ := ChatWorld.write_eq_some h
    obtain ⟨quoteExcerpt, plan, hturned, hplan⟩ := turned_of_submit hresult
    have hmem : id ∈ plan.files.map FileAsset.id := hplan ▸ hid
    exact hturned.boundFirst hw.attached hmem hfile hunbound
  | commit =>
    simp only [step] at h
    simp only [plannedIds] at hid
    split at h
    · cases h
    · next session hsession =>
      obtain ⟨db, hresult, rfl⟩ := ChatWorld.write_eq_some h
      have hok := hw.sessions _ _ hsession
      rw [hsession] at hid
      cases hok with
      | edit shown here request_here =>
        subst request_here
        obtain ⟨plan, hturned, hplan⟩ := turned_of_edit hw.attached shown here hresult
        have hmem : id ∈ plan.files.map FileAsset.id := hplan ▸ hid
        exact hturned.boundFirst hw.attached hmem hfile hunbound
      | regenerate target_shown target_here shown =>
        -- what a regeneration plans is shown, and so bound
        obtain ⟨loaded, hloaded, rfl⟩ := List.mem_map.mp hid
        obtain ⟨-, a, ha, -, haid⟩ := mem_currentAttachmentFiles hloaded
        exact absurd haid (hw.attached.not_attached hfile hunbound a ha)
      | purge => cases hid
  | _ => cases hid

/-! ### For good -/

/-- The asset is bound to the message for as long as it exists; only the purge of its conversation
forgets the message, and then deletes the asset. -/
def StaysBound (db : FileDb) (id messageId : ℕ) : Prop :=
  ∀ file, db.files.get? id = some file → file.boundAt ≠ none ∧
    (file.sourceMessageId = some messageId ∨
      file.sourceMessageId = none ∧ file.deletionStartedAt ≠ none)

theorem BoundFirst.staysBound (h : BoundFirst db id messageId) : StaysBound db id messageId := by
  intro file hfile
  obtain ⟨row, hrow, hbound, hsource⟩ := h.row
  rw [hrow] at hfile
  cases hfile
  exact ⟨hbound, .inl hsource⟩

theorem StaysBound.step (hw : Safe env.loads w) (h : step env w action = some w')
    (hold : id < w.db.files.next) (hbound : StaysBound w.db id messageId) :
    id < w'.db.files.next ∧ StaysBound w'.db id messageId := by
  obtain ⟨touched, hsafe⟩ := step_stepSafe hw h
  -- any conversation will do that the step does not touch
  have hdb : Undisturbed (touched.getD 0 + 1) w.db w'.db := by
    refine hsafe.undisturbed _ fun heq => ?_
    rw [heq, Option.getD_some] at heq
    have hlt := Option.some.inj heq
    omega
  refine ⟨hold.trans_le hdb.next, fun file' hfile' => ?_⟩
  obtain ⟨file, hfile, hkept⟩ := hdb.rows id file' hfile' hold
  obtain ⟨hfileBound, hsource⟩ := hbound file hfile
  refine ⟨hkept.bound hfileBound, ?_⟩
  rcases hkept.source hfileBound with hsame | hforgotten
  · rw [hsame]
    exact hsource.imp_right fun ⟨hnone, hstarted⟩ => ⟨hnone, hkept.started hstarted⟩
  · exact .inr hforgotten

theorem StaysBound.run {actions : List Action} (hw : Safe env.loads w)
    (hrun : run (Chat.step env) w actions = some w') (hold : id < w.db.files.next)
    (hbound : StaysBound w.db id messageId) : StaysBound w'.db id messageId := by
  let Inv (w : ChatWorld) : Prop :=
    Safe env.loads w ∧ id < w.db.files.next ∧ StaysBound w.db id messageId
  have hstep : ∀ w a w', Inv w → Chat.step env w a = some w' → Inv w' := by
    rintro w a w' ⟨hw, hold, hbound⟩ h
    exact ⟨step_safe hw h, StaysBound.step hw h hold hbound⟩
  have hinv : Inv w' := run_invariant hstep ⟨hw, hold, hbound⟩ hrun
  exact hinv.2.2

/-! ### The result -/

/-- **Attached files are safe.** In every state that is reached: an asset that a message shows is
there, and its deletion has not begun; cancelling uploads changes no asset that is bound; and what a
request plans unbound is bound to its new message, and to no other in all that follows. -/
theorem attachedFiles_safe (env : Env) (actions : List Action) (w : ChatWorld)
    (hrun : run (step env) .init actions = some w) :
    (∀ a ∈ w.db.attachments, ∀ m ∈ w.db.messages, m.id = a.messageId → m.archivedAt = none →
      ∃ file, a.fileId = some file.id ∧ w.db.files.get? file.id = some file ∧
        file.deletionStartedAt = none) ∧
    (∀ now userId uploadIds w',
      step env w (.files now (.cancelUploads userId uploadIds)) = some w' →
      ∀ id file, w.db.files.get? id = some file → file.boundAt ≠ none →
        w'.db.files.get? id = some file) ∧
    ∀ action w', step env w action = some w' → ∀ id ∈ plannedIds w action, ∀ file,
      w.db.files.get? id = some file → file.boundAt = none →
        (∃ m, m.id = w.db.messages.next ∧ ShownIn w'.db.toConversationTables m ∧
          m.role = .user) ∧
        BoundFirst w'.db id w.db.messages.next ∧
        ∀ more w'', run (step env) w' more = some w'' →
          StaysBound w''.db id w.db.messages.next := by
  have hw := safe_of_run hrun
  refine ⟨fun a ha m hm hmessage hshown => ?_, fun now userId uploadIds w' h id file hfile hbound =>
    ?_, fun action w' h id hid file hfile hunbound => ?_⟩
  · obtain ⟨id, hid⟩ := Option.ne_none_iff_exists'.mp
      (hw.attached.shown a ha m ⟨hm, hshown⟩ hmessage)
    obtain ⟨file, hfile, -⟩ := hw.attached.asset a ha id hid
    have hcurrent : w.db.CurrentReference id := ⟨a, ha, hid, m, hm, hmessage, hshown⟩
    have hkey : file.id = id := Table.key_of_get? hfile
    rw [hkey.symm] at hid hfile hcurrent
    exact ⟨file, hid, hfile, (hw.attached.current file.id file hfile hcurrent).2⟩
  · obtain ⟨db, hresult, rfl⟩ := ChatWorld.write_eq_some h
    rcases (FileDb.cancelUploads_deletionsStarted hresult).row id with hsame | ⟨hgone, -⟩
    · exact hsame.trans hfile
    · obtain ⟨file', hfile', hunbound⟩ := hgone
      rw [hfile] at hfile'
      cases hfile'
      exact absurd hunbound hbound
  · obtain ⟨hm, hfirst⟩ := boundFirst_of_step hw h hid hfile hunbound
    refine ⟨hm, hfirst, fun more w'' hmore => ?_⟩
    obtain ⟨row, hrow, -⟩ := hfirst.row
    have hlt := w'.db.files.lt_next row (Table.mem_of_get? hrow)
    rw [Table.key_of_get? hrow] at hlt
    exact StaysBound.run (step_safe hw h) hmore hlt hfirst.staysBound

/-! ### An attached file -/

/-- Plain settings, without Unicode. -/
def plainEnv : Env := ⟨.default, fun _ => none, .ascii⟩

/-- What is read of a text file. -/
def textColumns : FileDb.ProcessedColumns where
  mediaType := "text/plain"
  originalSizeBytes := 10
  sha256 := "0"
  warnings := []
  extractorVersion := "text-v1"
  summaryMetadata := []
  documentText := some "notes"
  modelInputKind := some .document

/-- A user uploads a text file, and a worker processes it. -/
def uploadText (uploadId : ℕ) : List Action :=
  [.files 0 (.createUpload 1 "notes.txt" .upload "text/plain".toList 10 false),
    .files 0 (.confirmUpload 1 uploadId (some ['e']) none
      (some ⟨10, "text/plain".toList, ['e'], some 10⟩)),
    .files 0 (.claimUpload 0 uploadId),
    .files 0 (.persistManifest uploadId 0 []),
    .files 0 (.commitSuccess uploadId 0 textColumns [])]

/-- A request of the user, for a model that takes no images. -/
def textRequest : RunRequest where
  userId := 1
  conversationId := 0
  providerName := "provider"
  providerModel := "model"
  modelConfigSnapshot := .null
  supportsImageInput := some false
  messageTokens _ := 0
  now := 1

/-- The user submits a message with the file. -/
def submitText : List Action :=
  .createConversation 1 :: uploadText 0 ++ [.submit textRequest "Read this." [0] none]

theorem attachedFiles_safe_submitText :
    ∃ w, run (step plainEnv) .init submitText = some w ∧
      (∃ a ∈ w.db.attachments, ∃ m ∈ w.db.messages, m.id = a.messageId ∧ m.archivedAt = none) ∧
      ∀ a ∈ w.db.attachments, ∀ m ∈ w.db.messages, m.id = a.messageId → m.archivedAt = none →
        ∃ file, a.fileId = some file.id ∧ w.db.files.get? file.id = some file ∧
          file.deletionStartedAt = none := by
  have hreached : ∃ w, run (step plainEnv) .init submitText = some w ∧
      ∃ a ∈ w.db.attachments, ∃ m ∈ w.db.messages, m.id = a.messageId ∧ m.archivedAt = none :=
    exists_run (by decide +kernel)
  obtain ⟨w, hrun, hshown⟩ := hreached
  exact ⟨w, hrun, hshown, (attachedFiles_safe plainEnv submitText w hrun).1⟩

end IChat.Chat
