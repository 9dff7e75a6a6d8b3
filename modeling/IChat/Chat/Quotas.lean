import IChat.Chat.AttachedFiles
import IChat.Files.Quotas

/-!
# Quotas over whole runs

What `IChat.Files.Quotas` says of single transactions, for every interleaving of the requests, the
workers and the maintenance tasks. The requests of a conversation write columns of the assets that
the accounting does not read (`ChargesKept`). A purge reads its assets before it holds their rows,
so it releases what it has read (`ReadAssets`); it must not find the deletion of an asset begun by
somebody else in between.

`quotas_exact` is the result: along a run whose steps meet `KeepsQuota`, the counters of every user
are what the rows say, are not negative, and stay below the limit together.
-/

namespace IChat.Chat

open Files Conversations StepSystem

variable {env : Env} {w w' : ChatWorld} {action : Action} {db db' db₁ db₂ db₃ : FileDb}
  {tx : FileTx} {file row : FileAsset} {unread : List ℕ} {files loaded : List FileAsset}
  {conversationId now : ℕ} {request : RunRequest}

/-! ### The conditions -/

/-- A transaction that releases and charges what it should: no avatar upload is cancelled or found
expired by a request that takes it for an attachment, and the parser does not measure more than was
declared. -/
def FileTx.KeepsQuota (now : ℕ) (db : FileDb) : FileTx → Prop
  | .confirmUpload userId uploadId _ _ _ =>
    ∀ u ∈ db.uploads, u.id = uploadId → u.userId = userId → u.status = .pending →
      u.expiresAt ≤ now → u.purpose = .messageAttachment
  | .cancelUploads userId uploadIds =>
    ∀ u ∈ db.uploads, FileDb.Stopped userId uploadIds u → u.purpose = .messageAttachment
  | .commitSuccess uploadId _ processed _ =>
    ∀ u ∈ db.uploads, u.id = uploadId → processed.originalSizeBytes ≤ u.declaredSizeBytes
  | _ => True

/-- The deletion of no asset has begun since the purge read it. -/
def Session.FindsKept (db : FileDb) : Session → Prop
  | .purge _ _ files => ∀ file ∈ files, file.deletionStartedAt = none →
      ∀ row ∈ db.files, row.id = file.id → row.deletionStartedAt = none
  | _ => True

/-- The step releases and charges what it should. -/
def KeepsQuota (w : ChatWorld) : Action → Prop
  | .files now tx => tx.KeepsQuota now w.db
  | .commit conversationId => ∀ session ∈ w.sessions conversationId, session.FindsKept w.db
  | _ => True

section Decidable

instance (now : ℕ) (db : FileDb) (tx : FileTx) : Decidable (tx.KeepsQuota now db) := by
  induction tx using FileTx.casesOn <;> dsimp only [FileTx.KeepsQuota] <;> infer_instance

instance (db : FileDb) (session : Session) : Decidable (session.FindsKept db) := by
  induction session using Session.casesOn <;> dsimp only [Session.FindsKept] <;> infer_instance

instance (w : ChatWorld) (action : Action) : Decidable (KeepsQuota w action) := by
  induction action using Action.casesOn <;> dsimp only [KeepsQuota] <;> infer_instance

end Decidable

/-! ### Transactions of the files domain -/

theorem FileTx.reconciled {s : Files.Settings} (h : FileDb.Reconciled s db)
    (hkeeps : tx.KeepsQuota now db) (hrun : tx.run s now db = .ok db') :
    FileDb.Reconciled s db' := by
  cases tx with
  | createUpload => exact h.createUpload hrun
  | createAvatarUpload => exact h.createAvatarUpload hrun
  | moveAvatarUpload => exact h.moveAvatarUpload hrun
  | confirmUpload => exact h.confirmUpload hkeeps hrun
  | cancelUploads => exact h.cancelUploads hkeeps hrun
  | claimUpload =>
    obtain ⟨⟨_, claimed⟩, hclaim, rfl⟩ := map_eq_ok_iff.mp hrun
    exact h.claimUpload hclaim
  | persistManifest => exact h.persistManifest hrun
  | finishError => exact h.finishError hrun
  | commitSuccess => exact h.commitSuccess hkeeps hrun
  | recordStagingDeleted => exact h.recordStagingDeleted hrun
  | sweepUploads => exact h.sweepUploads hrun
  | cleanupStaging => exact h.cleanupStaging hrun
  | reclaimAssets => exact h.reclaimAssets hrun
  | completeDeletion => exact h.completeDeletion hrun
  | retryDeletion => exact h.retryDeletion hrun
  | reconcileQuota =>
    cases hrun
    exact h.reconcileQuota
  | deactivateUser => exact h.deactivateUser hrun

/-! ### Requests of a conversation -/

/-- The rows say of every user what they said. -/
structure ChargesKept (db db' : FileDb) : Prop where
  uploads : db'.uploads = db.uploads
  quotas : db'.quotas = db.quotas
  next : db'.files.next = db.files.next
  row : ∀ id, (db'.files.get? id).map FileAsset.charge = (db.files.get? id).map FileAsset.charge

namespace ChargesKept

theorem refl (db : FileDb) : ChargesKept db db := ⟨rfl, rfl, rfl, fun _ => rfl⟩

theorem trans (h₁ : ChargesKept db₁ db₂) (h₂ : ChargesKept db₂ db₃) : ChargesKept db₁ db₃ :=
  ⟨h₂.uploads.trans h₁.uploads, h₂.quotas.trans h₁.quotas, h₂.next.trans h₁.next,
    fun id => (h₂.row id).trans (h₁.row id)⟩

/-- A row is written back with its charge. -/
theorem setFile {attachments : List MessageAttachment} (hrow : row ∈ db.files)
    (hid : file.id = row.id) (hcharge : file.charge = row.charge) :
    ChargesKept db { db with attachments, files := db.files.set file } := by
  refine ⟨rfl, rfl, rfl, fun id => ?_⟩
  rw [Table.get?_set ⟨row, hrow, hid.symm⟩]
  split_ifs with heq
  · rw [heq, hid, Table.get?_key hrow, Option.map_some, Option.map_some, hcharge]
  · rfl

theorem reconciled {s : Files.Settings} (h : ChargesKept db db') (hdb : FileDb.Reconciled s db) :
    FileDb.Reconciled s db' := by
  refine hdb.congr h.quotas (fun userId => ?_) (fun userId => ?_) ?_
  · rw [FileDb.reservedSum, h.uploads, FileDb.reservedSum]
  · let weight (c : ℕ × FilePurpose × ℕ × Option ℕ) : ℤ :=
      if c.1 = userId ∧ c.2.1 = .messageAttachment ∧ c.2.2.2 = none then c.2.2.1 else 0
    exact @Table.sum_eq_of_get? _ _ _ _ _ FileAsset.charge weight h.row
  · rw [h.uploads]
    exact hdb.unleased

end ChargesKept

/-- A flush writes none of the columns of the charge. -/
theorem flush_charge {changed : FileAsset} :
    (FileAsset.flush file changed row).charge = row.charge := rfl

theorem bindAttachmentPlan_chargesKept {messageId : ℕ} {plan : AttachmentPlan} :
    ChargesKept db (db.bindAttachmentPlan messageId plan now) := by
  unfold FileDb.bindAttachmentPlan
  refine List.foldlRecOn (motive := ChargesKept db) _ _ (.refl db) fun m hm entry _ => hm.trans ?_
  unfold FileDb.bindAttachment
  dsimp only
  split
  · exact ⟨rfl, rfl, rfl, fun _ => rfl⟩
  · next row hrow => exact .setFile (Table.mem_of_get? hrow) rfl flush_charge

theorem refreshDetachedState_chargesKept {fileId : ℕ} :
    ChargesKept db (db.refreshDetachedState loaded now fileId) := by
  unfold FileDb.refreshDetachedState
  split
  · next row file hrow _ =>
    split_ifs
    · exact .refl db
    all_goals exact .setFile (Table.mem_of_get? hrow) rfl flush_charge
  · exact .refl db

theorem insertTurn_chargesKept {content : String} {quoteExcerpt : Option String}
    {plan : AttachmentPlan} (h : db.insertTurn request content quoteExcerpt plan = .ok db') :
    ChargesKept db db' := by
  unfold FileDb.insertTurn at h
  obtain ⟨tables, -, h⟩ := bind_eq_ok_iff.mp h
  cases h
  have htables : ChargesKept db { db with toConversationTables := tables } :=
    ⟨rfl, rfl, rfl, fun _ => rfl⟩
  exact htables.trans bindAttachmentPlan_chargesKept

theorem turn_chargesKept {loads : String → Option Json} {content : String}
    {quoteExcerpt : Option String} {p : ℕ → Bool} {ids : List ℕ} {plan : AttachmentPlan}
    (h : Requests.Turn loads request content quoteExcerpt p ids loaded plan db db') :
    ChargesKept db db' := by
  have hinserted := insertTurn_chargesKept h.inserted
  exact ⟨hinserted.uploads, hinserted.quotas, hinserted.next, hinserted.row⟩

theorem editUserMessage_chargesKept {loads : String → Option Json} {s : Files.Settings}
    {messageId : ℕ} {newContent : String} {attachmentIds : Option (List ℕ)}
    (h : db.editUserMessage loads s request messageId newContent attachmentIds loaded = .ok db') :
    ChargesKept db db' := by
  obtain ⟨target, plan, turned, -, hturn, rfl⟩ := Requests.editUserMessage_eq_ok h
  exact List.foldlRecOn (motive := ChargesKept db) _ _ (turn_chargesKept hturn) fun _ hm _ _ =>
    hm.trans refreshDetachedState_chargesKept

/-- The messages of a conversation go. -/
theorem deleteMessages_chargesKept : ChargesKept db (db.deleteMessages conversationId) := by
  refine ⟨rfl, rfl, rfl, fun id => ?_⟩
  rw [FileDb.deleteMessages, Table.get?_map, Option.map_map]
  rfl

/-! ### Assets that a purge has read -/

/-- No asset changes its owner, its purpose or its size. -/
structure SizesKept (db db' : FileDb) : Prop where
  next_le : db.files.next ≤ db'.files.next
  row : ∀ row' ∈ db'.files, row'.id < db.files.next → ∃ row ∈ db.files, row.id = row'.id ∧
    row.userId = row'.userId ∧ row.purpose = row'.purpose ∧ row.sizeBytes = row'.sizeBytes

theorem ChargesKept.exists_row (h : ChargesKept db db') (hrow : row ∈ db'.files) :
    ∃ row₀ ∈ db.files, row₀.id = row.id ∧ row₀.charge = row.charge := by
  have hget := h.row row.id
  rw [Table.get?_key hrow, Option.map_some, eq_comm, Option.map_eq_some_iff] at hget
  obtain ⟨row₀, hrow₀, hcharge⟩ := hget
  exact ⟨row₀, Table.mem_of_get? hrow₀, Table.key_of_get? hrow₀, hcharge⟩

theorem ChargesKept.sizesKept (h : ChargesKept db db') : SizesKept db db' where
  next_le := h.next.ge
  row row' hrow' _ := by
    obtain ⟨row, hrow, hid, hcharge⟩ := h.exists_row hrow'
    simp only [FileAsset.charge, Prod.mk.injEq] at hcharge
    exact ⟨row, hrow, hid, hcharge.1, hcharge.2.1, hcharge.2.2.1⟩

theorem FileEffect.sizesKept (h : FileEffect db db') : SizesKept db db' := by
  cases h with
  | same h =>
    refine ⟨by rw [h.files], fun row' hrow' _ => ?_⟩
    rw [h.files] at hrow'
    exact ⟨row', hrow', rfl, rfl, rfl, rfl⟩
  | deletions h =>
    refine ⟨h.next.ge, fun row' hrow' _ => ?_⟩
    obtain ⟨row, hrow, heq, -⟩ := h.get?_eq (Table.get?_key hrow')
    refine ⟨row, Table.mem_of_get? hrow, Table.key_of_get? hrow, ?_⟩
    rw [heq]
    exact ⟨rfl, rfl, rfl⟩
  | inserted h =>
    obtain ⟨file, -, hget⟩ := h.row
    refine ⟨by rw [h.next]; exact Nat.le_succ _, fun row' hrow' hold => ?_⟩
    have hrow := hget row'.id
    rw [Table.get?_key hrow', if_neg hold.ne] at hrow
    exact ⟨row', Table.mem_of_get? hrow.symm, rfl, rfl, rfl, rfl⟩
  | erased fileId h =>
    refine ⟨h.next.ge, fun row' hrow' _ => ?_⟩
    have hrow := h.row row'.id
    rw [Table.get?_key hrow'] at hrow
    split_ifs at hrow
    exact ⟨row', Table.mem_of_get? hrow.symm, rfl, rfl, rfl, rfl⟩

theorem Purged.sizesKept (h : Purged conversationId files db db') : SizesKept db db' := by
  refine ⟨h.next.ge, fun row' hrow' _ => ?_⟩
  obtain ⟨row, hrow, heq, -⟩ := h.row row'.id row' (Table.get?_key hrow')
  refine ⟨row, Table.mem_of_get? hrow, Table.key_of_get? hrow, ?_⟩
  rw [heq]
  exact ⟨rfl, rfl, rfl⟩

/-- What a purge has read and has still to read: each asset once, with the columns that stay. -/
structure ReadAssets (db : FileDb) (unread : List ℕ) (files : List FileAsset) : Prop where
  nodup : (files.map FileAsset.id ++ unread).Nodup
  old : ∀ file ∈ files, file.id < db.files.next
  same : ∀ file ∈ files, ∀ row ∈ db.files, row.id = file.id →
    row.userId = file.userId ∧ row.purpose = file.purpose ∧ row.sizeBytes = file.sizeBytes

theorem ReadAssets.kept (h : ReadAssets db unread files) (hkept : SizesKept db db') :
    ReadAssets db' unread files where
  nodup := h.nodup
  old file hfile := (h.old file hfile).trans_le hkept.next_le
  same file hfile row' hrow' hid := by
    obtain ⟨row, hrow, hkey, huser, hpurpose, hsize⟩ :=
      hkept.row row' hrow' (hid ▸ h.old file hfile)
    obtain ⟨huser', hpurpose', hsize'⟩ := h.same file hfile row hrow (hkey.trans hid)
    exact ⟨huser.symm.trans huser', hpurpose.symm.trans hpurpose', hsize.symm.trans hsize'⟩

/-- The purge reads its next asset, if it is exclusive to the conversation. -/
theorem ReadAssets.read {fileId : ℕ} (h : ReadAssets db (fileId :: unread) files) :
    ReadAssets db unread (files ++ (db.purgedAsset conversationId fileId).toList) := by
  have hnodup : (files.map FileAsset.id ++ [fileId] ++ unread).Nodup := by
    rw [List.append_assoc]
    exact h.nodup
  cases hread : db.purgedAsset conversationId fileId with
  | none =>
    rw [Option.toList_none, List.append_nil]
    refine ⟨hnodup.sublist ?_, h.old, h.same⟩
    exact (List.sublist_append_left _ _).append_right _
  | some file =>
    have hfile : db.files.get? fileId = some file := by
      unfold FileDb.purgedAsset at hread
      split_ifs at hread
      exact hread
    obtain ⟨hmem, rfl⟩ := Table.get?_eq_some_iff.mp hfile
    refine ⟨?_, fun f hf => ?_, fun f hf row hrow hid => ?_⟩
    · rw [Option.toList_some, List.map_append]
      exact hnodup
    · rcases List.mem_append.mp hf with hf | hf
      · exact h.old f hf
      · obtain rfl := List.mem_singleton.mp hf
        exact db.files.lt_next f hmem
    · rcases List.mem_append.mp hf with hf | hf
      · exact h.same f hf row hrow hid
      · obtain rfl := List.mem_singleton.mp hf
        rw [Table.eq_of_key_eq hrow hmem hid]
        exact ⟨rfl, rfl, rfl⟩

/-- A purge that has read everything releases what its assets have used. -/
theorem purgeConversation_reconciled {s : Files.Settings} (h : FileDb.Reconciled s db)
    (hread : ReadAssets db unread files) (hkept : Session.FindsKept db (.purge now unread files))
    (hpurged : db.purgeConversation conversationId files now = .ok db') :
    FileDb.Reconciled s db' := by
  obtain ⟨marked, hmarked, hpurged⟩ := bind_eq_ok_iff.mp hpurged
  cases hpurged
  have hdeleted : ChargesKept db (db.deleteMessages conversationId) := deleteMessages_chargesKept
  have hend : FileDb.Reconciled s marked := by
    refine (hdeleted.reconciled h).beginAssetDeletions (List.nodup_append.mp hread.nodup).1
      (fun file hfile hnone row hrow hid => ?_) hmarked
    obtain ⟨row₀, hrow₀, hid₀, hcharge⟩ := hdeleted.exists_row hrow
    obtain ⟨huser, hpurpose, hsize⟩ := hread.same file hfile row₀ hrow₀ (hid₀.trans hid)
    have hstarted := hkept file hfile hnone row₀ hrow₀ (hid₀.trans hid)
    rw [← hcharge, FileAsset.charge, FileAsset.charge, huser, hpurpose, hsize, hstarted, hnone]
  exact hend.congr rfl (fun _ => rfl) (fun _ => rfl) hend.unleased

/-! ### Runs -/

/-- The invariant: the counters are what the rows say, and so is what a purge will release. -/
structure QuotaSafe (s : Files.Settings) (w : ChatWorld) : Prop where
  reconciled : FileDb.Reconciled s w.db
  purges : ∀ c now unread files, w.sessions c = some (.purge now unread files) →
    ReadAssets w.db unread files

namespace QuotaSafe

variable {s : Files.Settings}

theorem init : QuotaSafe s .init where
  reconciled := by
    have hreserved (userId : ℕ) : FileDb.empty.reservedSum userId = 0 := Table.sum_empty
    have hused (userId : ℕ) : FileDb.empty.usedSum userId = 0 := Table.sum_empty
    refine ⟨fun userId => ?_, fun userId => ?_, fun userId => ?_,
      fun _ hu => absurd hu List.not_mem_nil⟩
    · show (0 : ℤ) = FileDb.empty.reservedSum userId + 0
      rw [hreserved, add_zero]
    · exact (hused userId).symm
    · show FileDb.empty.usedSum userId + FileDb.empty.reservedSum userId ≤ s.quotaBytes
      rw [hreserved, hused, add_zero]
      exact Int.natCast_nonneg _
  purges _ _ _ _ hsession := by cases hsession

/-- The database is another one, and the sessions are as they were. -/
theorem write (h : QuotaSafe s w) (hreconciled : FileDb.Reconciled s db)
    (hkept : SizesKept w.db db) : QuotaSafe s { w with db } where
  reconciled := hreconciled
  purges c now unread files hsession := (h.purges c now unread files hsession).kept hkept

theorem charges (h : QuotaSafe s w) (hkept : ChargesKept w.db db) : QuotaSafe s { w with db } :=
  h.write (hkept.reconciled h.reconciled) hkept.sizesKept

theorem tables (h : QuotaSafe s w) {tables : ConversationTables} :
    QuotaSafe s { w with db := { w.db with toConversationTables := tables } } :=
  h.charges ⟨rfl, rfl, rfl, fun _ => rfl⟩

/-- A session takes the conversation, or gives it back. -/
theorem setSession (h : QuotaSafe s w) {session : Option Session}
    (hsession : ∀ now unread files, session = some (.purge now unread files) →
      ReadAssets w.db unread files) : QuotaSafe s (w.setSession conversationId session) where
  reconciled := h.reconciled
  purges c now unread files hc := by
    by_cases heq : c = conversationId
    · subst heq
      simp only [ChatWorld.setSession, Function.update_self] at hc
      exact hsession now unread files hc
    · simp only [ChatWorld.setSession, Function.update_of_ne heq] at hc
      exact h.purges c now unread files hc

/-- The commit of a transaction that holds a conversation. -/
theorem commitSession {session : Session} (h : QuotaSafe env.settings w)
    (hsession : w.sessions conversationId = some session) (hkeeps : session.FindsKept w.db)
    (hcommit : w.commitSession conversationId env session = .ok db) :
    FileDb.Reconciled env.settings db ∧ SizesKept w.db db := by
  cases session with
  | edit =>
    have hkept := editUserMessage_chargesKept hcommit
    exact ⟨hkept.reconciled h.reconciled, hkept.sizesKept⟩
  | regenerate =>
    obtain ⟨anchor, plan, -, hrerun⟩ := Requests.regenerateFromMessage_eq_ok hcommit
    obtain ⟨tables, -, rfl⟩ := hrerun.result
    have hkept : ChargesKept w.db { w.db with
        toConversationTables := { tables with
          messages := tables.messages.set { anchor with runId := some w.db.runs.next } } } :=
      ⟨rfl, rfl, rfl, fun _ => rfl⟩
    exact ⟨hkept.reconciled h.reconciled, hkept.sizesKept⟩
  | purge =>
    obtain ⟨-, hpurged⟩ := ite_error_eq_ok_iff.mp hcommit
    have hread := h.purges _ _ _ _ hsession
    exact ⟨purgeConversation_reconciled h.reconciled hread hkeeps hpurged,
      (purgeConversation_eq_ok hpurged).sizesKept⟩

/-- **The invariant.** A step that releases and charges what it should keeps it. -/
theorem step (hw : QuotaSafe env.settings w) (hkeeps : KeepsQuota w action)
    (h : step env w action = some w') : QuotaSafe env.settings w' := by
  -- the file tables change in a file transaction, a submission and a commit
  cases action with
  | files now tx =>
    obtain ⟨db, hrun, rfl⟩ := ChatWorld.write_eq_some h
    exact hw.write (tx.reconciled hw.reconciled hkeeps hrun) (FileTx.effect hrun).sizesKept
  | createConversation | advanceRun =>
    obtain ⟨tables, -, rfl⟩ := ChatWorld.writeTables_eq_some h
    exact hw.tables
  | deleteConversation | restoreConversation | endRun =>
    obtain ⟨-, h⟩ := Option.ite_none_right_eq_some.mp h
    obtain ⟨tables, -, rfl⟩ := ChatWorld.writeTables_eq_some h
    exact hw.tables
  | submit =>
    obtain ⟨-, h⟩ := Option.ite_none_right_eq_some.mp h
    obtain ⟨db, hresult, rfl⟩ := ChatWorld.write_eq_some h
    obtain ⟨quoteExcerpt, plan, hturn⟩ := Requests.submitUserMessage_eq_ok hresult
    exact hw.charges (turn_chargesKept hturn)
  | beginEdit | beginRegenerate =>
    obtain ⟨-, h⟩ := Option.ite_none_right_eq_some.mp h
    split at h
    · cases h
    · cases h
      exact hw.setSession fun _ _ _ hsession => by cases hsession
  | beginPurge =>
    obtain ⟨-, h⟩ := Option.ite_none_right_eq_some.mp h
    cases h
    refine hw.setSession fun _ _ _ hsession => ?_
    cases hsession
    exact ⟨List.nodup_dedup _, fun _ hnil => absurd hnil List.not_mem_nil,
      fun _ hnil => absurd hnil List.not_mem_nil⟩
  | readPurged =>
    obtain ⟨now, fileId, unread, files, hsession, rfl⟩ := ChatWorld.step_readPurged h
    refine hw.setSession fun _ _ _ hnew => ?_
    cases hnew
    exact (hw.purges _ _ _ _ hsession).read
  | commit conversationId =>
    obtain ⟨session, db, hsession, hcommit, rfl⟩ := ChatWorld.step_commit h
    obtain ⟨hreconciled, hkept⟩ := hw.commitSession hsession (hkeeps session hsession) hcommit
    have hreleased : QuotaSafe env.settings (w.setSession conversationId none) :=
      hw.setSession fun _ _ _ hnone => by cases hnone
    exact hreleased.write hreconciled hkept
  | rollback =>
    cases h
    exact hw.setSession fun _ _ _ hnone => by cases hnone
  | restoreSources =>
    obtain ⟨_, rfl⟩ := ChatWorld.step_restoreSources h
    exact ⟨hw.reconciled, hw.purges⟩
  | registerSources =>
    obtain ⟨_, rfl⟩ := ChatWorld.step_registerSources h
    exact ⟨hw.reconciled, hw.purges⟩
  | succeedRun =>
    obtain ⟨_, _, _, -, -, -, -, rfl⟩ := ChatWorld.step_succeedRun h
    exact hw.tables

end QuotaSafe

/-- **Quotas.** Along a run whose steps release and charge what they should, the counters of every
user are what the rows say, are not negative, and are below the limit together. -/
theorem quotas_exact {actions : List Action} (hrun : run (step env) .init actions = some w)
    (hkeeps : Along (step env) KeepsQuota .init actions) (userId : ℕ) :
    let quota := w.db.quotas userId
    quota.reservedBytes = w.db.reservedSum userId ∧ quota.usedBytes = w.db.usedSum userId ∧
      0 ≤ quota.reservedBytes ∧ 0 ≤ quota.usedBytes ∧
      quota.usedBytes + quota.reservedBytes ≤ env.settings.quotaBytes := by
  have hend : QuotaSafe env.settings w :=
    run_invariant_along (fun _ _ _ hw hkeeps hstep => hw.step hkeeps hstep) .init hkeeps hrun
  have hreserved := hend.reconciled.reserved userId
  have hused := hend.reconciled.used userId
  have hwithin := hend.reconciled.within userId
  obtain ⟨hreservedNonneg, husedNonneg⟩ := hend.reconciled.nonneg userId
  rw [add_zero] at hreserved
  refine ⟨hreserved, hused, hreservedNonneg, husedNonneg, ?_⟩
  omega

/-- A file is uploaded and processed, a second one is on its way, and the first one is cancelled
again. -/
def uploadTwice : List Action :=
  uploadText 0 ++ [.files 1 (.createUpload 1 "more.txt" .upload "text/plain".toList 20 false),
    .files 2 (.cancelUploads 1 [0])]

theorem quotas_exact_uploadTwice :
    ∃ w, run (step plainEnv) .init uploadTwice = some w ∧
      (w.db.quotas 1).reservedBytes = 20 ∧ (w.db.quotas 1).usedBytes = 0 ∧
      (w.db.quotas 1).reservedBytes = w.db.reservedSum 1 ∧
      (w.db.quotas 1).usedBytes = w.db.usedSum 1 ∧
      (w.db.quotas 1).usedBytes + (w.db.quotas 1).reservedBytes ≤
        plainEnv.settings.quotaBytes := by
  obtain ⟨w, hrun, hreserved, hused⟩ : ∃ w, run (step plainEnv) .init uploadTwice = some w ∧
      (w.db.quotas 1).reservedBytes = 20 ∧ (w.db.quotas 1).usedBytes = 0 :=
    exists_run (by decide +kernel)
  have hexact := quotas_exact hrun (by decide +kernel) 1
  exact ⟨w, hrun, hreserved, hused, hexact.1, hexact.2.1, hexact.2.2.2.2⟩

end IChat.Chat
