import IChat.Files.Bindings
import IChat.General.Lists

/-!
# The rows that binding and detaching write

Binding a plan appends one attachment for each of its assets and writes the rows of the assets
(`bindAttachmentPlan_eq`); refreshing the detached state writes rows only
(`foldl_refreshDetachedState_eq`). Both write what the session makes of the rows that it holds, so
they are as the database has them when those are (`Holds`).
-/

namespace IChat.Files

/-- A flush of a row that has not changed in the database writes what the session has. -/
theorem FileAsset.flush_self {file changed : FileAsset}
    (h : changed = { file with
      unboundExpiresAt := changed.unboundExpiresAt
      sourceMessageId := changed.sourceMessageId
      boundAt := changed.boundAt
      detachedAt := changed.detachedAt }) : FileAsset.flush file changed file = changed := by
  have hite {α : Type} [DecidableEq α] (x y : α) : (if x = y then y else x) = x := by
    split_ifs with heq
    · exact heq.symm
    · rfl
  unfold FileAsset.flush
  rw [hite, hite, hite, hite]
  exact h.symm

theorem FileAsset.flush_bind (file : FileAsset) (messageId now : ℕ) :
    FileAsset.flush file (file.bind messageId now) file = file.bind messageId now := by
  refine FileAsset.flush_self ?_
  unfold FileAsset.bind
  split_ifs <;> rfl

@[simp] theorem FileAsset.bind_id (file : FileAsset) (messageId now : ℕ) :
    (file.bind messageId now).id = file.id := by
  unfold FileAsset.bind
  split_ifs <;> rfl

@[simp] theorem FileAsset.bind_purpose (file : FileAsset) (messageId now : ℕ) :
    (file.bind messageId now).purpose = file.purpose := by
  unfold FileAsset.bind
  split_ifs <;> rfl

@[simp] theorem FileAsset.bind_deletionStartedAt (file : FileAsset) (messageId now : ℕ) :
    (file.bind messageId now).deletionStartedAt = file.deletionStartedAt := by
  unfold FileAsset.bind
  split_ifs <;> rfl

@[simp] theorem FileAsset.bind_detachedAt (file : FileAsset) (messageId now : ℕ) :
    (file.bind messageId now).detachedAt = none := rfl

theorem FileAsset.bind_boundAt (file : FileAsset) (messageId now : ℕ) :
    (file.bind messageId now).boundAt ≠ none := by
  unfold FileAsset.bind
  split_ifs with hbound
  · nofun
  · exact hbound

theorem FileAsset.bind_sourceMessageId (file : FileAsset) (messageId now : ℕ) :
    (file.bind messageId now).sourceMessageId =
      if file.boundAt = none then some messageId else file.sourceMessageId := by
  unfold FileAsset.bind
  split_ifs <;> rfl

/-- An asset that is bound and shown is not changed by another binding. -/
theorem FileAsset.bind_eq_self {file : FileAsset} {messageId now : ℕ} (hbound : file.boundAt ≠ none)
    (hshown : file.detachedAt = none) : file.bind messageId now = file := by
  unfold FileAsset.bind
  rw [if_neg hbound, ← hshown]

/-- What a refresh makes of a row. -/
def FileAsset.refreshed (file : FileAsset) (shown : Prop) [Decidable shown] (now : ℕ) : FileAsset :=
  if file.deletionStartedAt ≠ none then file
  else { file with detachedAt := if shown then none else some now }

@[simp] theorem FileAsset.refreshed_id (file : FileAsset) (shown : Prop) [Decidable shown]
    (now : ℕ) : (file.refreshed shown now).id = file.id := by
  unfold FileAsset.refreshed
  split_ifs <;> rfl

@[simp] theorem FileAsset.refreshed_boundAt (file : FileAsset) (shown : Prop) [Decidable shown]
    (now : ℕ) : (file.refreshed shown now).boundAt = file.boundAt := by
  unfold FileAsset.refreshed
  split_ifs <;> rfl

@[simp] theorem FileAsset.refreshed_deletionStartedAt (file : FileAsset) (shown : Prop)
    [Decidable shown] (now : ℕ) :
    (file.refreshed shown now).deletionStartedAt = file.deletionStartedAt := by
  unfold FileAsset.refreshed
  split_ifs <;> rfl

theorem FileAsset.refreshed_detachedAt {file : FileAsset} {shown : Prop} [Decidable shown]
    {now : ℕ} (hkept : file.deletionStartedAt = none) :
    (file.refreshed shown now).detachedAt = none ↔ shown := by
  rw [FileAsset.refreshed, if_neg (not_not.mpr hkept)]
  by_cases hshown : shown <;> simp [hshown]

namespace FileDb

variable {db : FileDb} {messageId now : ℕ} {files : List FileAsset} {id : ℕ}

/-- The rows that a session holds are those of the database. -/
def Holds (db : FileDb) (files : List FileAsset) : Prop :=
  ∀ file ∈ files, db.files.get? file.id = some file

/-! ### Binding -/

theorem bindAttachment_get? {entry : FileAsset × ℕ}
    (h : db.files.get? entry.1.id = some entry.1) :
    (db.bindAttachment messageId now entry).files.get? id =
      if id = entry.1.id then some (entry.1.bind messageId now) else db.files.get? id := by
  have hrow : (db.bindAttachment messageId now entry).files =
      db.files.set (entry.1.bind messageId now) := by
    simp only [bindAttachment, h, FileAsset.flush_bind]
  have hmem : ∃ row ∈ db.files, row.id = (entry.1.bind messageId now).id :=
    ⟨entry.1, Table.mem_of_get? h, by rw [FileAsset.bind_id]⟩
  rw [hrow, Table.get?_set hmem, FileAsset.bind_id]

theorem bindAttachment_next {entry : FileAsset × ℕ} :
    (db.bindAttachment messageId now entry).files.next = db.files.next := by
  unfold bindAttachment
  dsimp only
  split <;> rfl

/-- The attachments of a message to some assets. -/
def newAttachments (messageId : ℕ) (files : List FileAsset) : List MessageAttachment :=
  files.zipIdx.map fun entry => ⟨messageId, some entry.1.id, entry.2⟩

theorem mem_newAttachments {a : MessageAttachment} (h : a ∈ newAttachments messageId files) :
    a.messageId = messageId ∧ ∃ file ∈ files, a.fileId = some file.id := by
  obtain ⟨⟨file, position⟩, hentry, rfl⟩ := List.mem_map.mp h
  exact ⟨rfl, file, List.fst_mem_of_mem_zipIdx hentry, rfl⟩

theorem exists_mem_newAttachments (messageId : ℕ) {file : FileAsset} (h : file ∈ files) :
    ∃ a ∈ newAttachments messageId files, a.fileId = some file.id := by
  obtain ⟨position, hposition, rfl⟩ := List.mem_iff_getElem.mp h
  refine ⟨⟨messageId, some files[position].id, position⟩, ?_, rfl⟩
  refine List.mem_map.mpr ⟨(files[position], position), ?_, rfl⟩
  rw [List.mem_zipIdx_iff_getElem?]
  exact List.getElem?_eq_getElem hposition

/-- What binding a plan does to the assets and the attachments. -/
structure Bound (messageId now : ℕ) (files : List FileAsset) (db db' : FileDb) : Prop where
  next : db'.files.next = db.files.next
  attachments : db'.attachments = db.attachments ++ newAttachments messageId files
  bound : ∀ file ∈ files, db'.files.get? file.id = some (file.bind messageId now)
  other : ∀ id, id ∉ files.map FileAsset.id → db'.files.get? id = db.files.get? id

/-- **Binding.** The assets of a plan whose rows the session holds are bound, and nothing else is
written. -/
theorem bindAttachmentPlan_eq {plan : AttachmentPlan} (hholds : db.Holds plan.files)
    (hnodup : (plan.files.map FileAsset.id).Nodup) :
    Bound messageId now plan.files db (db.bindAttachmentPlan messageId plan now) := by
  have hentries : ∀ (entries : List (FileAsset × ℕ)) (db : FileDb),
      (∀ entry ∈ entries, db.files.get? entry.1.id = some entry.1) →
      (entries.map fun entry => entry.1.id).Nodup →
      let db' := entries.foldl (bindAttachment messageId now) db
      db'.files.next = db.files.next ∧
        db'.attachments =
          db.attachments ++ entries.map (fun entry => ⟨messageId, some entry.1.id, entry.2⟩) ∧
        (∀ entry ∈ entries,
          db'.files.get? entry.1.id = some (entry.1.bind messageId now)) ∧
        ∀ id, id ∉ entries.map (fun entry => entry.1.id) →
          db'.files.get? id = db.files.get? id := by
    intro entries
    induction entries with
    | nil =>
      intro db _ _
      exact ⟨rfl, (List.append_nil _).symm, fun _ hnil => absurd hnil List.not_mem_nil,
        fun _ _ => rfl⟩
    | cons entry entries ih =>
      intro db hget hnodup
      obtain ⟨hfresh, hnodup⟩ := List.nodup_cons.mp hnodup
      have hfirst : db.files.get? entry.1.id = some entry.1 := hget entry List.mem_cons_self
      have hget' : ∀ e ∈ entries,
          (db.bindAttachment messageId now entry).files.get? e.1.id = some e.1 := by
        intro e he
        have hne : e.1.id ≠ entry.1.id := fun heq => hfresh (List.mem_map.mpr ⟨e, he, heq⟩)
        rw [bindAttachment_get? hfirst, if_neg hne]
        exact hget e (List.mem_cons_of_mem _ he)
      obtain ⟨hnext, hattachments, hbound, hother⟩ := ih _ hget' hnodup
      refine ⟨hnext.trans bindAttachment_next, ?_, fun e he => ?_, fun id hid => ?_⟩
      · rw [List.foldl_cons, hattachments, List.map_cons]
        exact List.append_assoc _ _ _
      · rcases List.mem_cons.mp he with rfl | he
        · rw [List.foldl_cons, hother _ hfresh, bindAttachment_get? hfirst, if_pos rfl]
        · exact hbound e he
      · rw [List.map_cons, List.mem_cons, not_or] at hid
        rw [List.foldl_cons, hother id hid.2, bindAttachment_get? hfirst, if_neg hid.1]
  have hids : (plan.files.zipIdx.map fun entry => entry.1.id) = plan.files.map FileAsset.id := by
    rw [← List.zipIdx_map_fst 0 plan.files, List.map_map, List.zipIdx_map_fst]
    rfl
  have hmem : ∀ entry ∈ plan.files.zipIdx, entry.1 ∈ plan.files := fun _ hentry =>
    List.fst_mem_of_mem_zipIdx hentry
  obtain ⟨hnext, hattachments, hbound, hother⟩ := hentries plan.files.zipIdx db
    (fun entry hentry => hholds _ (hmem entry hentry)) (hids ▸ hnodup)
  refine ⟨hnext, hattachments, fun file hfile => ?_, fun id hid => hother id (hids ▸ hid)⟩
  obtain ⟨position, hposition, rfl⟩ := List.mem_iff_getElem.mp hfile
  refine hbound (plan.files[position], position) ?_
  rw [List.mem_zipIdx_iff_getElem?]
  exact List.getElem?_eq_getElem hposition

/-! ### Refreshing -/

theorem currentReference_congr {db' : FileDb} (htables : db'.messages = db.messages)
    (hattachments : db'.attachments = db.attachments) :
    db'.CurrentReference id ↔ db.CurrentReference id := by
  unfold CurrentReference
  rw [htables, hattachments]

/-- What refreshing the detached state does. -/
structure Refreshed (now : ℕ) (ids : List ℕ) (db db' : FileDb) : Prop where
  tables : db'.toConversationTables = db.toConversationTables
  attachments : db'.attachments = db.attachments
  next : db'.files.next = db.files.next
  refreshed : ∀ id ∈ ids, db'.files.get? id =
    (db.files.get? id).map fun row => row.refreshed (db.CurrentReference id) now
  other : ∀ id, id ∉ ids → db'.files.get? id = db.files.get? id

/-- The session's row of an asset, if it has one, is the one of the database. -/
def SessionHolds (db : FileDb) (held : List FileAsset) (id : ℕ) : Prop :=
  ∀ row, db.files.get? id = some row → db.sessionFile held id = some row

theorem refreshDetachedState_eq {held : List FileAsset} (h : db.SessionHolds held id) :
    Refreshed now [id] db (db.refreshDetachedState held now id) := by
  cases hrow : db.files.get? id with
  | none =>
    have hsame : db.refreshDetachedState held now id = db := by
      simp only [refreshDetachedState, hrow]
    rw [hsame]
    refine ⟨rfl, rfl, rfl, fun k hk => ?_, fun k _ => rfl⟩
    rw [List.mem_singleton.mp hk, hrow]
    rfl
  | some row =>
    have hid : row.id = id := Table.key_of_get? hrow
    have hwrite : db.refreshDetachedState held now id =
        if row.deletionStartedAt ≠ none then db
        else { db with files := db.files.set (FileAsset.flush row
          { row with detachedAt := if db.CurrentReference id then none else some now } row) } := by
      simp only [refreshDetachedState, hrow, h row hrow]
    have hmem : ∃ r ∈ db.files, r.id = (row.refreshed (db.CurrentReference id) now).id :=
      ⟨row, Table.mem_of_get? hrow, by rw [FileAsset.refreshed_id]⟩
    rw [hwrite]
    by_cases hstarted : row.deletionStartedAt ≠ none
    · rw [if_pos hstarted]
      refine ⟨rfl, rfl, rfl, fun k hk => ?_, fun k _ => rfl⟩
      rw [List.mem_singleton.mp hk, hrow, Option.map_some, FileAsset.refreshed, if_pos hstarted]
    · have hflush : FileAsset.flush row
          { row with detachedAt := if db.CurrentReference id then none else some now } row =
            row.refreshed (db.CurrentReference id) now := by
        rw [FileAsset.refreshed, if_neg hstarted]
        exact FileAsset.flush_self rfl
      rw [if_neg hstarted, hflush]
      refine ⟨rfl, rfl, rfl, fun k hk => ?_, fun k hk => ?_⟩
      · rw [List.mem_singleton.mp hk, hrow]
        exact (Table.get?_set hmem).trans (if_pos (by rw [FileAsset.refreshed_id, hid]))
      · refine (Table.get?_set hmem).trans (if_neg ?_)
        rw [FileAsset.refreshed_id, hid]
        exact fun heq => hk (List.mem_singleton.mpr heq)

/-- **Refreshing.** Each of the assets is refreshed, once. -/
theorem foldl_refreshDetachedState_eq {held : List FileAsset} {ids : List ℕ}
    (hnodup : ids.Nodup) (hholds : ∀ id ∈ ids, db.SessionHolds held id) :
    Refreshed now ids db (ids.foldl (refreshDetachedState held now) db) := by
  induction ids generalizing db with
  | nil =>
    exact ⟨rfl, rfl, rfl, fun _ hnil => absurd hnil List.not_mem_nil, fun _ _ => rfl⟩
  | cons id ids ih =>
    obtain ⟨hfresh, hnodup⟩ := List.nodup_cons.mp hnodup
    have hfirst : Refreshed now [id] db (db.refreshDetachedState held now id) :=
      refreshDetachedState_eq (hholds id List.mem_cons_self)
    have hsame : ∀ k ∈ ids, (db.refreshDetachedState held now id).files.get? k =
        db.files.get? k := fun k hk => hfirst.other k fun hmem =>
      hfresh (List.mem_singleton.mp hmem ▸ hk)
    have hrest : Refreshed now ids (db.refreshDetachedState held now id)
        (ids.foldl (refreshDetachedState held now) (db.refreshDetachedState held now id)) := by
      refine ih hnodup fun k hk row hrow => ?_
      rw [hsame k hk] at hrow
      rw [sessionFile, hsame k hk]
      exact hholds k (List.mem_cons_of_mem _ hk) row hrow
    have hmessages : (db.refreshDetachedState held now id).messages = db.messages :=
      congrArg Conversations.ConversationTables.messages hfirst.tables
    refine ⟨hrest.tables.trans hfirst.tables, hrest.attachments.trans hfirst.attachments,
      hrest.next.trans hfirst.next, fun k hk => ?_, fun k hk => ?_⟩
    · rcases List.mem_cons.mp hk with rfl | hk
      · rw [List.foldl_cons, hrest.other _ hfresh]
        exact hfirst.refreshed _ List.mem_cons_self
      · rw [List.foldl_cons, hrest.refreshed k hk, hsame k hk]
        refine congrArg (Option.map · _) (funext fun row => ?_)
        have hiff : (db.refreshDetachedState held now id).CurrentReference k ↔
            db.CurrentReference k := currentReference_congr hmessages hfirst.attachments
        unfold FileAsset.refreshed
        simp only [hiff]
    · rw [List.mem_cons, not_or] at hk
      rw [List.foldl_cons, hrest.other k hk.2]
      exact hfirst.other k fun hmem => hk.1 (List.mem_singleton.mp hmem)

end FileDb

end IChat.Files
