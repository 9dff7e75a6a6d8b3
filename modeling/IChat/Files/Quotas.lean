import IChat.Files.Cancellation
import IChat.Files.Frames

/-!
# The quota of a user

`file_quotas` says of each user what `file_uploads` and `files` say as well: how many bytes are
reserved for attachments on their way, and how many are used by those that are there. The
transactions write the counters and the rows one after another, and cut the counters off at zero.

`Ledger` is what holds in between: the counters are what the rows say, except for the reserved
bytes of uploads that have ended and are still to be released (`owed`). Between two transactions
nothing is owed (`Reconciled`), and this file says so for one transaction after the other. Three of
them need a condition: `confirm_upload` and `cancel_uploads` release the bytes of an avatar upload
too, which never reserved any, and `_commit_success` charges what the parser has measured.
-/

namespace IChat.Files

/-- The columns of an asset that the accounting reads. -/
def FileAsset.charge (file : FileAsset) : ℕ × FilePurpose × ℕ × Option ℕ :=
  (file.userId, file.purpose, file.sizeBytes, file.deletionStartedAt)

namespace FileDb

/-- The counters are what the rows say, with some more bytes reserved, and no user has more than
the limit. No attempt to process an attachment has the lease of an avatar upload. -/
structure Ledger (s : Settings) (owed : ℕ → ℤ) (db : FileDb) : Prop where
  reserved : ∀ userId, (db.quotas userId).reservedBytes = db.reservedSum userId + owed userId
  used : ∀ userId, (db.quotas userId).usedBytes = db.usedSum userId
  within : ∀ userId, db.usedSum userId + db.reservedSum userId ≤ s.quotaBytes
  unleased : ∀ u ∈ db.uploads, u.purpose = .avatar → u.leaseOwner = none

/-- The counters are what the rows say. -/
def Reconciled (s : Settings) (db : FileDb) : Prop := Ledger s (fun _ => 0) db

variable {s : Settings} {db db' : FileDb} {owed owed' : ℕ → ℤ} {upload old new : FileUpload}
  {uploads : List FileUpload} {file row : FileAsset} {userId uploadId now : ℕ} {bytes : ℤ}

/-! ### Weights -/

theorem reservedWeight_nonneg : 0 ≤ reservedWeight userId upload := by
  unfold reservedWeight
  split_ifs <;> omega

theorem reservedSum_nonneg : 0 ≤ db.reservedSum userId :=
  Table.sum_nonneg fun _ _ => reservedWeight_nonneg

theorem usedSum_nonneg : 0 ≤ db.usedSum userId := Table.sum_nonneg fun _ _ => usedWeight_nonneg

theorem reservedWeight_of_ended (h : upload.status.isActive = false) :
    reservedWeight userId upload = 0 :=
  if_neg fun hholds => Bool.false_ne_true (h.symm.trans hholds.2.2)

theorem reservedWeight_of_avatar (h : upload.purpose = .avatar) :
    reservedWeight userId upload = 0 :=
  if_neg fun hholds => FilePurpose.noConfusion (h.symm.trans hholds.2.1)

/-- What an active attachment upload reserves. -/
theorem reservedWeight_of_active (hpurpose : upload.purpose = .messageAttachment)
    (hactive : upload.status.isActive = true) :
    reservedWeight userId upload =
      if userId = upload.userId then (upload.declaredSizeBytes : ℤ) else 0 :=
  if_congr ⟨fun hholds => hholds.1.symm, fun heq => ⟨heq.symm, hpurpose, hactive⟩⟩ rfl rfl

/-- The weight of an upload is read off three of its columns and its being active. -/
theorem reservedWeight_congr (huser : new.userId = old.userId)
    (hpurpose : new.purpose = old.purpose) (hsize : new.declaredSizeBytes = old.declaredSizeBytes)
    (hactive : new.status.isActive = old.status.isActive) :
    reservedWeight userId new = reservedWeight userId old := by
  unfold reservedWeight
  refine if_congr ?_ (by rw [hsize]) rfl
  rw [HoldsReservation, HoldsReservation, huser, hpurpose, hactive]

theorem usedWeight_of_started (h : file.deletionStartedAt ≠ none) : usedWeight userId file = 0 :=
  if_neg fun hall => h hall.2.2

/-- What some uploads of one user reserve together. -/
theorem sum_reservedWeight (huser : ∀ u ∈ uploads, u.userId = userId) (id : ℕ) :
    (uploads.map (reservedWeight id)).sum =
      if id = userId then
        (((uploads.filter fun u => u.purpose = .messageAttachment ∧ u.status.isActive = true).map
          FileUpload.declaredSizeBytes).sum : ℤ)
      else 0 := by
  induction uploads with
  | nil => simp
  | cons u uploads ih =>
    have hself := huser u List.mem_cons_self
    rw [List.map_cons, List.sum_cons, ih fun u hu => huser u (List.mem_cons_of_mem _ hu)]
    by_cases hholds : u.purpose = .messageAttachment ∧ u.status.isActive = true
    · rw [reservedWeight_of_active hholds.1 hholds.2, hself,
        List.filter_cons_of_pos (by simpa using hholds), List.map_cons, List.sum_cons]
      split_ifs
      · rfl
      · rfl
    · have hweight : reservedWeight id u = 0 := if_neg fun hall => hholds hall.2
      rw [hweight, zero_add, List.filter_cons_of_neg (by simpa using hholds)]

theorem beginAssetDeletion_uploads (h : db.beginAssetDeletion file now = .ok db') :
    db'.uploads = db.uploads := by
  rcases beginAssetDeletion_eq_ok.mp h with ⟨-, rfl⟩ | ⟨-, row, -, -, heq⟩
  · rfl
  · dsimp only at heq
    split_ifs at heq <;> subst heq <;> exact enqueueDeletions_onlyFacts.uploads

theorem quotas_setQuota_self {quota : FileQuota} :
    (db.setQuota userId quota).quotas userId = quota := by
  show Function.update db.quotas userId quota userId = quota
  rw [Function.update_self]

theorem quotas_setQuota_of_ne {quota : FileQuota} {id : ℕ} (h : id ≠ userId) :
    (db.setQuota userId quota).quotas id = db.quotas id := by
  show Function.update db.quotas userId quota id = db.quotas id
  rw [Function.update_of_ne h]

namespace Ledger

/-! ### Single writes -/

theorem mono (h : Ledger s owed db) (howed : ∀ userId, owed userId = owed' userId) :
    Ledger s owed' db where
  reserved userId := by rw [h.reserved, howed]
  used := h.used
  within := h.within
  unleased := h.unleased

/-- The counters and the rows are as they were, as far as the accounting reads them. -/
theorem congr (h : Ledger s owed db) (hquotas : db'.quotas = db.quotas)
    (huploads : ∀ userId, db'.reservedSum userId = db.reservedSum userId)
    (hfiles : ∀ userId, db'.usedSum userId = db.usedSum userId)
    (hunleased : ∀ u ∈ db'.uploads, u.purpose = .avatar → u.leaseOwner = none) :
    Ledger s owed db' where
  reserved userId := by rw [hquotas, huploads, h.reserved]
  used userId := by rw [hquotas, hfiles, h.used]
  within userId := by rw [huploads, hfiles]; exact h.within userId
  unleased := hunleased

theorem onlyFacts (h : Ledger s owed db) (hfacts : OnlyFacts db db') : Ledger s owed db' := by
  refine h.congr hfacts.quotas (fun userId => ?_) (fun userId => ?_) ?_
  · rw [reservedSum, reservedSum, hfacts.uploads]
  · rw [usedSum, usedSum, hfacts.files]
  · rw [hfacts.uploads]
    exact h.unleased

/-- An upload is written back: what it no longer holds is owed. -/
theorem setUpload (h : Ledger s owed db) (hrow : db.uploads.get? new.id = some old)
    (hle : ∀ userId, reservedWeight userId new ≤ reservedWeight userId old)
    (hlease : new.purpose = .avatar → new.leaseOwner = none) :
    Ledger s (fun userId => owed userId + (reservedWeight userId old - reservedWeight userId new))
      (db.setUpload new) := by
  obtain ⟨hmem, hkey⟩ := Table.get?_eq_some_iff.mp hrow
  have hsum (userId : ℕ) : (db.setUpload new).reservedSum userId =
      db.reservedSum userId + (reservedWeight userId new - reservedWeight userId old) :=
    Table.sum_set hmem hkey
  refine ⟨fun userId => ?_, h.used, fun userId => ?_, Table.forall_mem_set h.unleased hlease⟩
  · have hquota : ((db.setUpload new).quotas userId).reservedBytes = _ := h.reserved userId
    rw [hquota, hsum]
    omega
  · have hused : (db.setUpload new).usedSum userId = db.usedSum userId := rfl
    rw [hused, hsum]
    have := h.within userId
    have := hle userId
    omega

/-- An upload that holds what it held. -/
theorem keepUpload (h : Ledger s owed db) (hrow : db.uploads.get? new.id = some old)
    (hsame : ∀ userId, reservedWeight userId new = reservedWeight userId old)
    (hlease : new.purpose = .avatar → new.leaseOwner = none) :
    Ledger s owed (db.setUpload new) := by
  refine (h.setUpload hrow (fun userId => (hsame userId).le) hlease).mono fun userId => ?_
  rw [hsame, sub_self, add_zero]

/-- An upload that ends: its reservation is owed. -/
theorem endUpload {target : FileUploadStatus} {errorCode : Option String} (h : Ledger s owed db)
    (hrow : db.uploads.get? upload.id = some upload) (hended : target.isActive = false) :
    Ledger s (fun userId => owed userId + reservedWeight userId upload)
      (db.setUpload (upload.moved target now errorCode)) := by
  have hnew (userId : ℕ) : reservedWeight userId (upload.moved target now errorCode) = 0 :=
    reservedWeight_of_ended (by rw [FileUpload.moved_status, hended])
  have hset := h.setUpload (by rw [FileUpload.moved_id]; exact hrow)
    (fun userId => (hnew userId).le.trans reservedWeight_nonneg) fun _ =>
      FileUpload.moved_leaseOwner (fun heq => by rw [heq] at hended; cases hended)
        fun heq => by rw [heq] at hended; cases hended
  refine hset.mono fun userId => ?_
  rw [hnew, sub_zero]

/-- Bytes that are reserved, on account of an upload or of what is owed, are released in full. -/
theorem release (h : Ledger s owed db) (hle : bytes ≤ db.reservedSum userId + owed userId) :
    Ledger s (fun id => owed id - if id = userId then bytes else 0)
      (db.releaseReservedBytes userId bytes) := by
  have hquotas : (db.releaseReservedBytes userId bytes).quotas = Function.update db.quotas userId
      { db.quotas userId with
        reservedBytes := max 0 ((db.quotas userId).reservedBytes - bytes) } := rfl
  refine ⟨fun id => ?_, fun id => ?_, h.within, h.unleased⟩
  · have hsum : (db.releaseReservedBytes userId bytes).reservedSum id = db.reservedSum id := rfl
    have hquota := h.reserved id
    rw [hsum, hquotas]
    by_cases hid : id = userId
    · subst hid
      rw [if_pos rfl, Function.update_self]
      dsimp only
      rw [max_eq_right (by omega)]
      omega
    · rw [if_neg hid, Function.update_of_ne hid, sub_zero, hquota]
  · have hsum : (db.releaseReservedBytes userId bytes).usedSum id = db.usedSum id := rfl
    rw [hsum, hquotas]
    by_cases hid : id = userId
    · subst hid
      rw [Function.update_self]
      exact h.used id
    · rw [Function.update_of_ne hid]
      exact h.used id

/-! ### Assets -/

/-- The deletion of an asset begins whose row is as the session read it. -/
theorem beginAssetDeletion (h : Ledger s owed db)
    (hcurrent : file.deletionStartedAt = none → ∀ row ∈ db.files, row.id = file.id →
      row.charge = file.charge)
    (hbegun : db.beginAssetDeletion file now = .ok db') : Ledger s owed db' := by
  rcases beginAssetDeletion_eq_ok.mp hbegun with ⟨-, rfl⟩ | ⟨hnone, row, hmem, hid, heq⟩
  · exact h
  · have hcharge := hcurrent hnone row hmem hid
    obtain ⟨huser, hpurpose, hsize, hstarted⟩ :
        row.userId = file.userId ∧ row.purpose = file.purpose ∧ row.sizeBytes = file.sizeBytes ∧
          row.deletionStartedAt = file.deletionStartedAt := by
      simpa only [FileAsset.charge, Prod.mk.injEq] using hcharge
    let marked := { db with files := db.files.set { row with deletionStartedAt := some now } }
    let targets := (marked.objectsOf file.id).flatMap (FileObject.targets file.purpose)
    have hfacts : OnlyFacts marked (marked.enqueueDeletions targets now) :=
      enqueueDeletions_onlyFacts
    have hweight (userId : ℕ) : usedWeight userId row =
        if userId = file.userId ∧ file.purpose = .messageAttachment then (file.sizeBytes : ℤ)
        else 0 := by
      rw [usedWeight, huser, hpurpose, hsize, hstarted]
      refine if_congr ?_ rfl rfl
      exact ⟨fun hall => ⟨hall.1.symm, hall.2.1⟩, fun hall => ⟨hall.1.symm, hall.2, hnone⟩⟩
    have hsum (userId : ℕ) : marked.usedSum userId = db.usedSum userId - usedWeight userId row := by
      have hset := @Table.sum_set _ _ db.files { row with deletionStartedAt := some now } row
        (usedWeight userId) hmem rfl
      have hzero : usedWeight userId { row with deletionStartedAt := some now } = 0 :=
        usedWeight_of_started (Option.some_ne_none now)
      rw [hzero] at hset
      exact hset.trans (by rw [usedSum]; omega)
    have hle (userId : ℕ) : usedWeight userId row ≤ db.usedSum userId :=
      Table.le_sum (fun _ _ => usedWeight_nonneg) hmem
    -- the rows of `db'` are those of `marked`, and only `used_bytes` can differ
    have hrest : db'.uploads = db.uploads ∧ db'.files = marked.files ∧ ∀ userId,
        (db'.quotas userId).reservedBytes = (db.quotas userId).reservedBytes ∧
          (db'.quotas userId).usedBytes = marked.usedSum userId := by
      dsimp only at heq
      by_cases hattachment : file.purpose = .messageAttachment
      · rw [if_pos hattachment] at heq
        subst heq
        refine ⟨hfacts.uploads, hfacts.files, fun userId => ?_⟩
        have hquotas : (marked.enqueueDeletions targets now).quotas = db.quotas := hfacts.quotas
        have hused := h.used userId
        have hrow := hweight userId
        rw [hsum]
        show (Function.update (marked.enqueueDeletions targets now).quotas file.userId _
          userId).reservedBytes = _ ∧ (Function.update (marked.enqueueDeletions targets now).quotas
            file.userId _ userId).usedBytes = _
        rw [hquotas]
        by_cases hself : userId = file.userId
        · subst hself
          rw [if_pos ⟨rfl, hattachment⟩] at hrow
          have := hle file.userId
          rw [Function.update_self]
          refine ⟨rfl, ?_⟩
          dsimp only
          rw [max_eq_right (by omega)]
          omega
        · rw [if_neg fun hall => hself hall.1] at hrow
          rw [Function.update_of_ne hself, hrow, sub_zero]
          exact ⟨rfl, hused⟩
      · rw [if_neg hattachment] at heq
        subst heq
        refine ⟨hfacts.uploads, hfacts.files, fun userId => ?_⟩
        have hquotas : (marked.enqueueDeletions targets now).quotas = db.quotas := hfacts.quotas
        rw [hsum, hquotas, hweight, if_neg fun hall => hattachment hall.2, sub_zero]
        exact ⟨rfl, h.used userId⟩
    obtain ⟨huploads, hfiles, hquotas⟩ := hrest
    have hreserved (userId : ℕ) : db'.reservedSum userId = db.reservedSum userId := by
      rw [reservedSum, huploads, reservedSum]
    have hused (userId : ℕ) : db'.usedSum userId = marked.usedSum userId := by
      rw [usedSum, hfiles, usedSum]
    refine ⟨fun userId => ?_, fun userId => ?_, fun userId => ?_, ?_⟩
    · rw [(hquotas userId).1, hreserved, h.reserved]
    · rw [(hquotas userId).2, hused]
    · rw [hused, hreserved, hsum]
      have := h.within userId
      have := @usedWeight_nonneg userId row
      omega
    · rw [huploads]
      exact h.unleased

/-- An upload that waits for its processing again holds what it held. -/
theorem requeue {errorCode : Option String} {availableAt : ℕ → ℕ}
    {code : Option String → Option String} (h : Ledger s owed db)
    (hupload : db.uploads.get? uploadId = some upload) (hactive : upload.status.isActive = true) :
    let moved := upload.moved .queued now errorCode
    Ledger s owed (db.setUpload
      { moved with
        availableAt := availableAt moved.availableAt, errorCode := code moved.errorCode }) := by
  obtain ⟨-, rfl⟩ := Table.get?_eq_some_iff.mp hupload
  exact h.keepUpload hupload (fun _ => reservedWeight_congr rfl rfl rfl hactive.symm) fun _ => rfl

/-- What `cancel_uploads` does to one upload. -/
theorem cancelUpload (h : Ledger s owed db) (hupload : db.uploads.get? upload.id = some upload)
    (hcancelled : FileDb.cancelUpload now db upload = .ok db') :
    Ledger s (fun userId => owed userId + reservedWeight userId upload) db' ∧
      ∀ id, id ≠ upload.id → db'.uploads.get? id = db.uploads.get? id := by
  have hkept (hended : upload.status.isActive = false) :
      Ledger s (fun userId => owed userId + reservedWeight userId upload) db :=
    h.mono fun userId => by rw [reservedWeight_of_ended hended, add_zero]
  unfold FileDb.cancelUpload at hcancelled
  split_ifs at hcancelled with hsucceeded hactive
  · have hended : upload.status.isActive = false := by rw [hsucceeded]; rfl
    split at hcancelled
    · next file hfile =>
      split_ifs at hcancelled with hnone
      · rw [succeededAsset, if_pos hsucceeded, Option.bind_eq_some_iff] at hfile
        obtain ⟨fileId, -, hrow⟩ := hfile
        refine ⟨(hkept hended).beginAssetDeletion (fun _ row hmem hid => ?_) hcancelled,
          fun id _ => ?_⟩
        · rw [Table.eq_of_key_eq hmem (Table.mem_of_get? hrow) hid]
        · rw [beginAssetDeletion_uploads hcancelled]
      · cases hcancelled
        exact ⟨hkept hended, fun _ _ => rfl⟩
    · cases hcancelled
      exact ⟨hkept hended, fun _ _ => rfl⟩
  · obtain ⟨moved, hmoves, hcancelled⟩ := bind_eq_ok_iff.mp hcancelled
    cases hcancelled
    obtain ⟨-, rfl⟩ := transitionUpload_eq_ok.mp hmoves
    refine ⟨h.endUpload hupload rfl, fun id hne => ?_⟩
    refine (Table.get?_set ⟨upload, Table.mem_of_get? hupload, FileUpload.moved_id.symm⟩).trans ?_
    rw [FileUpload.moved_id, if_neg hne]
  · cases hcancelled
    exact ⟨hkept (by simpa using hactive), fun _ _ => rfl⟩

/-- An asset that is being deleted counts no more when it is gone. -/
theorem deleteAsset {fileId : ℕ} (h : Ledger s owed db) (hfile : db.files.get? fileId = some file)
    (hstarted : file.deletionStartedAt ≠ none) : Ledger s owed (db.deleteAsset fileId) := by
  let clear (u : FileUpload) : FileUpload :=
    { u with fileId := if u.fileId = some fileId then none else u.fileId }
  obtain ⟨hmem, hid⟩ := Table.get?_eq_some_iff.mp hfile
  refine h.congr rfl (fun userId => ?_) (fun userId => ?_) fun u hu havatar => ?_
  · have hmap : (db.uploads.map clear fun _ => rfl).sum (reservedWeight userId) = _ := Table.sum_map
    refine hmap.trans (Table.sum_congr fun u _ => ?_)
    exact reservedWeight_congr rfl rfl rfl rfl
  · refine Table.sum_erase fun row hrow hkey => ?_
    rw [Table.eq_of_key_eq hrow hmem (hkey.trans hid.symm)]
    exact usedWeight_of_started hstarted
  · obtain ⟨u₀, hu₀, rfl⟩ := List.mem_map.mp hu
    exact h.unleased u₀ hu₀ havatar

/-! ### Loops -/

/-- A loop over uploads that are there. What it does to one of them leaves the other rows alone, and
adds to what is owed what the upload has reserved. -/
theorem foldlM {f : FileDb → FileUpload → Except FileError FileDb}
    (hf : ∀ owed db upload db', Ledger s owed db → db.uploads.get? upload.id = some upload →
      f db upload = .ok db' →
      Ledger s (fun userId => owed userId + reservedWeight userId upload) db' ∧
        ∀ id, id ≠ upload.id → db'.uploads.get? id = db.uploads.get? id)
    (h : Ledger s owed db) (hnodup : (uploads.map FileUpload.id).Nodup)
    (hrows : ∀ u ∈ uploads, db.uploads.get? u.id = some u)
    (hloop : uploads.foldlM f db = .ok db') :
    Ledger s (fun userId => owed userId + (uploads.map (reservedWeight userId)).sum) db' := by
  induction uploads generalizing db owed with
  | nil =>
    cases hloop
    exact h.mono fun userId => by rw [List.map_nil, List.sum_nil, add_zero]
  | cons u uploads ih =>
    obtain ⟨hfresh, hnodup⟩ := List.nodup_cons.mp hnodup
    rw [List.foldlM_cons] at hloop
    obtain ⟨m, hfirst, hloop⟩ := bind_eq_ok_iff.mp hloop
    obtain ⟨hm, hothers⟩ := hf owed db u m h (hrows u List.mem_cons_self) hfirst
    have hrest := ih hm hnodup (fun v hv => by
      rw [hothers v.id fun heq => hfresh (heq ▸ List.mem_map_of_mem hv)]
      exact hrows v (List.mem_cons_of_mem _ hv)) hloop
    refine hrest.mono fun userId => ?_
    rw [List.map_cons, List.sum_cons, add_assoc]

/-- The deletion of several assets begins that a session has read. -/
theorem beginAssetDeletions {files : List FileAsset} (h : Ledger s owed db)
    (hnodup : (files.map FileAsset.id).Nodup)
    (hcurrent : ∀ file ∈ files, file.deletionStartedAt = none → ∀ row ∈ db.files,
      row.id = file.id → row.charge = file.charge)
    (hbegun : files.foldlM (fun db file => db.beginAssetDeletion file now) db = .ok db') :
    Ledger s owed db' := by
  induction files generalizing db with
  | nil =>
    cases hbegun
    exact h
  | cons file files ih =>
    obtain ⟨hfresh, hnodup⟩ := List.nodup_cons.mp hnodup
    rw [List.foldlM_cons] at hbegun
    obtain ⟨m, hfirst, hbegun⟩ := bind_eq_ok_iff.mp hbegun
    refine ih (h.beginAssetDeletion (hcurrent file List.mem_cons_self) hfirst) hnodup
      (fun later hlater hnone row hrow hid => ?_) hbegun
    rcases (beginAssetDeletion_deletionsStarted hfirst).row row.id with hsame | ⟨heq, -⟩
    · rw [Table.get?_key hrow] at hsame
      exact hcurrent later (List.mem_cons_of_mem _ hlater) hnone row (Table.mem_of_get? hsame.symm)
        hid
    · rw [heq] at hid
      exact absurd (hid ▸ List.mem_map_of_mem hlater) hfresh

end Ledger

namespace Reconciled

/-! ### The transactions of an upload -/

/-- Counters that are what the rows say are not negative. -/
theorem nonneg (h : Reconciled s db) (userId : ℕ) :
    0 ≤ (db.quotas userId).reservedBytes ∧ 0 ≤ (db.quotas userId).usedBytes := by
  rw [h.reserved, h.used, add_zero]
  exact ⟨reservedSum_nonneg, usedSum_nonneg⟩

/-- **The end of an upload.** Its row leaves the active ones, and its bytes are released. -/
theorem ended {target : FileUploadStatus} {errorCode : Option String} (h : Reconciled s db)
    (hrow : db.uploads.get? upload.id = some upload) (hactive : upload.status.isActive = true)
    (hended : target.isActive = false) :
    Reconciled s ((db.setUpload (upload.moved target now errorCode)).releaseReservation
      (upload.moved target now errorCode)) := by
  have hset := @Ledger.endUpload _ _ _ _ now _ errorCode h hrow hended
  unfold releaseReservation
  rw [FileUpload.moved_purpose, FileUpload.moved_userId, FileUpload.moved_declaredSizeBytes]
  by_cases hpurpose : upload.purpose = .messageAttachment
  · rw [if_neg (not_not.mpr hpurpose)]
    have hold (userId : ℕ) := @reservedWeight_of_active _ userId hpurpose hactive
    refine (hset.release ?_).mono fun userId => ?_
    · rw [hold, if_pos rfl]
      have := @reservedSum_nonneg (db.setUpload (upload.moved target now errorCode)) upload.userId
      omega
    · rw [hold]
      omega
  · rw [if_pos hpurpose]
    refine hset.mono fun userId => ?_
    have hold : reservedWeight userId upload = 0 := if_neg fun hall => hpurpose hall.2.1
    rw [hold, add_zero]

theorem createUpload {originalFilename : String} {origin : FileOrigin} {contentType : List Char}
    {sizeBytes : ℕ} {multipartSupported : Bool} (h : Reconciled s db)
    (hcreated : db.createUpload s userId originalFilename origin contentType sizeBytes
      multipartSupported now = .ok db') : Reconciled s db' := by
  unfold FileDb.createUpload at hcreated
  obtain ⟨-, hcreated⟩ := ite_error_eq_ok_iff.mp hcreated
  obtain ⟨-, hcreated⟩ := ite_error_eq_ok_iff.mp hcreated
  obtain ⟨hlimit, hcreated⟩ := ite_error_eq_ok_iff.mp hcreated
  cases hcreated
  rw [h.reserved, h.used, add_zero] at hlimit
  have hsum (id : ℕ) {uploads : Table FileUpload FileUpload.id} {new : FileUpload}
      (hinsert : uploads.sum (reservedWeight id) =
        db.uploads.sum (reservedWeight id) + reservedWeight id new)
      (hpurpose : new.purpose = .messageAttachment) (hactive : new.status.isActive = true)
      (huser : new.userId = userId) (hsize : new.declaredSizeBytes = sizeBytes) :
      uploads.sum (reservedWeight id) =
        db.reservedSum id + if id = userId then (sizeBytes : ℤ) else 0 := by
    rw [hinsert, reservedWeight_of_active hpurpose hactive, huser, hsize, reservedSum]
  have hquota (id : ℕ) : ((db.setQuota userId { db.quotas userId with
      reservedBytes := (db.quotas userId).reservedBytes + sizeBytes }).quotas id).reservedBytes =
        (db.quotas id).reservedBytes + (if id = userId then (sizeBytes : ℤ) else 0) ∧
      ((db.setQuota userId { db.quotas userId with
        reservedBytes := (db.quotas userId).reservedBytes + sizeBytes }).quotas id).usedBytes =
        (db.quotas id).usedBytes := by
    by_cases hid : id = userId
    · subst hid
      rw [quotas_setQuota_self, if_pos rfl]
      exact ⟨rfl, rfl⟩
    · rw [quotas_setQuota_of_ne hid, if_neg hid, add_zero]
      exact ⟨rfl, rfl⟩
  refine ⟨fun id => ?_, fun id => (hquota id).2.trans (h.used id), fun id => ?_, ?_⟩
  · refine (hquota id).1.trans ?_
    refine Eq.trans ?_ (congrArg (· + 0) (hsum id Table.sum_insert rfl rfl rfl rfl).symm)
    rw [h.reserved]
    omega
  · refine (congrArg (db.usedSum id + ·) (hsum id Table.sum_insert rfl rfl rfl rfl)).le.trans ?_
    have := h.within id
    by_cases hid : id = userId
    · subst hid
      rw [if_pos rfl]
      omega
    · rw [if_neg hid]
      omega
  · exact Table.forall_mem_insert h.unleased nofun

theorem createAvatarUpload {originalFilename : String} {contentType : List Char} {sizeBytes : ℕ}
    (h : Reconciled s db)
    (hcreated : db.createAvatarUpload s userId originalFilename contentType sizeBytes now =
      .ok db') : Reconciled s db' := by
  unfold FileDb.createAvatarUpload at hcreated
  obtain ⟨-, hcreated⟩ := ite_error_eq_ok_iff.mp hcreated
  cases hcreated
  have hsuperseded : ∀ u ∈ db.uploads.rows.filter fun u =>
      u.userId = userId ∧ u.purpose = .avatar ∧ u.status.isActive = true, u.purpose = .avatar :=
    fun u hu => (of_decide_eq_true (List.mem_filter.mp hu).2).2.1
  refine h.congr rfl (fun id => ?_) (fun _ => rfl) (Table.forall_mem_insert ?_ fun _ => rfl)
  · refine Table.sum_insert.trans ?_
    rw [reservedWeight_of_avatar rfl, add_zero]
    refine Table.sum_foldl_set (fun _ => FileUpload.moved_id)
      (db.uploads.nodup.sublist (List.filter_sublist.map _)) (fun u hu => (List.mem_filter.mp hu).1)
      fun u hu => ?_
    rw [reservedWeight_of_avatar (hsuperseded u hu),
      reservedWeight_of_avatar (by rw [FileUpload.moved_purpose]; exact hsuperseded u hu)]
  · -- a superseded upload has no lease
    refine List.foldlRecOn (motive := fun uploads : Table FileUpload FileUpload.id =>
      ∀ u ∈ uploads, u.purpose = .avatar → u.leaseOwner = none) _ _ h.unleased
      fun uploads hold u _ => Table.forall_mem_set hold fun _ => ?_
    exact FileUpload.moved_leaseOwner nofun nofun

theorem moveAvatarUpload {target : FileUploadStatus} {errorCode : Option String}
    (h : Reconciled s db) (hmoved : db.moveAvatarUpload uploadId target now errorCode = .ok db') :
    Reconciled s db' := by
  unfold FileDb.moveAvatarUpload at hmoved
  split at hmoved
  · cases hmoved
  · next upload hupload =>
    obtain ⟨havatar, hmoved⟩ := ite_error_eq_ok_iff.mp hmoved
    rw [not_not] at havatar
    obtain ⟨moved, hmoves, hmoved⟩ := bind_eq_ok_iff.mp hmoved
    cases hmoved
    obtain ⟨htarget, rfl⟩ := transitionUpload_eq_ok.mp hmoves
    obtain ⟨hmem, hid⟩ := Table.get?_eq_some_iff.mp hupload
    refine h.keepUpload (by rw [FileUpload.moved_id, hid]; exact hupload) (fun userId => ?_) ?_
    · rw [reservedWeight_of_avatar havatar,
        reservedWeight_of_avatar (by rw [FileUpload.moved_purpose]; exact havatar)]
    · intro _
      have hnone := h.unleased upload hmem havatar
      cases target <;> first | rfl | exact hnone

/-- `confirm_upload` releases the bytes of an expired upload, which has to be an attachment. -/
theorem confirmUpload {etag : Option (List Char)} {parts : Option (List ℕ)}
    {metadata : Option StorageObjectMetadata} (h : Reconciled s db)
    (hpurpose : ∀ u ∈ db.uploads, u.id = uploadId → u.userId = userId → u.status = .pending →
      u.expiresAt ≤ now → u.purpose = .messageAttachment)
    (hconfirmed : db.confirmUpload userId uploadId etag parts metadata now = .ok db') :
    Reconciled s db' := by
  unfold FileDb.confirmUpload at hconfirmed
  split at hconfirmed
  · cases hconfirmed
  · next upload hupload =>
    obtain ⟨huser, hconfirmed⟩ := ite_error_eq_ok_iff.mp hconfirmed
    rw [not_not] at huser
    obtain ⟨normalized, -, hconfirmed⟩ := bind_eq_ok_iff.mp hconfirmed
    obtain ⟨hmem, hid⟩ := Table.get?_eq_some_iff.mp hupload
    split_ifs at hconfirmed with hstatus hreplaced hexpired
    · cases hconfirmed
      exact h
    · obtain ⟨moved, hmoves, hconfirmed⟩ := bind_eq_ok_iff.mp hconfirmed
      cases hconfirmed
      obtain ⟨htarget, rfl⟩ := transitionUpload_eq_ok.mp hmoves
      rw [not_not] at hstatus
      have hattachment := hpurpose upload hmem hid huser hstatus hexpired
      have hended := @ended _ _ upload now .expired (some "upload_expired") h (hid ▸ hupload)
        (FileUploadStatus.isActive_of_mem_allowedTransitions htarget) rfl
      rw [releaseReservation, FileUpload.moved_purpose,
        if_neg (not_not.mpr hattachment), FileUpload.moved_userId,
        FileUpload.moved_declaredSizeBytes, huser] at hended
      exact hended
    · split at hconfirmed
      · cases hconfirmed
      · obtain ⟨-, hconfirmed⟩ := ite_error_eq_ok_iff.mp hconfirmed
        obtain ⟨moved, hmoves, hconfirmed⟩ := bind_eq_ok_iff.mp hconfirmed
        cases hconfirmed
        obtain ⟨htarget, rfl⟩ := transitionUpload_eq_ok.mp hmoves
        have hactive := FileUploadStatus.isActive_of_mem_allowedTransitions htarget
        subst hid
        exact h.keepUpload hupload (fun _ => reservedWeight_congr rfl rfl rfl hactive.symm)
          fun _ => rfl

theorem claimUpload {owner : ℕ} {claimed : FileUpload} (h : Reconciled s db)
    (hclaimed : db.claimUpload s owner uploadId now = .ok (db', claimed)) : Reconciled s db' := by
  unfold FileDb.claimUpload at hclaimed
  split at hclaimed
  · cases hclaimed
  · next upload hupload =>
    obtain ⟨hguard, hclaimed⟩ := ite_error_eq_ok_iff.mp hclaimed
    obtain ⟨moved, hmoves, hclaimed⟩ := bind_eq_ok_iff.mp hclaimed
    cases hclaimed
    obtain ⟨htarget, rfl⟩ := transitionUpload_eq_ok.mp hmoves
    obtain ⟨-, rfl⟩ := Table.get?_eq_some_iff.mp hupload
    have hactive := FileUploadStatus.isActive_of_mem_allowedTransitions htarget
    push Not at hguard
    refine h.keepUpload hupload (fun userId => ?_) fun havatar => ?_
    · exact reservedWeight_congr rfl rfl rfl hactive.symm
    · exact absurd (hguard.1.symm.trans havatar) nofun

theorem persistManifest {owner : ℕ} {manifest : List ManifestEntry} (h : Reconciled s db)
    (hpersisted : db.persistManifest uploadId owner manifest = .ok db') : Reconciled s db' := by
  unfold FileDb.persistManifest at hpersisted
  split at hpersisted
  · cases hpersisted
  · next upload hupload =>
    obtain ⟨-, hpersisted⟩ := ite_error_eq_ok_iff.mp hpersisted
    obtain ⟨-, hpersisted⟩ := ite_error_eq_ok_iff.mp hpersisted
    cases hpersisted
    obtain ⟨hmem, rfl⟩ := Table.get?_eq_some_iff.mp hupload
    exact h.keepUpload hupload (fun _ => rfl) (h.unleased upload hmem)

/-- An upload that ends, with the facts for what it has written. -/
theorem ended_manifest {target : FileUploadStatus} {errorCode : Option String} (h : Reconciled s db)
    (hupload : db.uploads.get? uploadId = some upload)
    (hmoves : transitionUpload upload target now errorCode = .ok new)
    (hended : target.isActive = false) :
    Reconciled s ((db.setUpload new).releaseReservation new) ∧
      Reconciled s
        (((db.setUpload new).releaseReservation new).enqueueManifestDeletions new now) := by
  obtain ⟨htarget, rfl⟩ := transitionUpload_eq_ok.mp hmoves
  obtain ⟨-, rfl⟩ := Table.get?_eq_some_iff.mp hupload
  have hnext := @ended _ _ _ now _ errorCode h hupload
    (FileUploadStatus.isActive_of_mem_allowedTransitions htarget) hended
  exact ⟨hnext, hnext.onlyFacts enqueueDeletions_onlyFacts⟩

theorem finishError {owner attemptCount : ℕ} {code : String} {retryable : Bool}
    (h : Reconciled s db)
    (hfinished : db.finishError s uploadId owner code retryable attemptCount now = .ok db') :
    Reconciled s db' := by
  unfold FileDb.finishError at hfinished
  split at hfinished
  · cases hfinished
    exact h
  · next upload hupload =>
    split_ifs at hfinished with hlost hretry
    · cases hfinished
      exact h
    · obtain ⟨moved, hmoves, hfinished⟩ := bind_eq_ok_iff.mp hfinished
      cases hfinished
      obtain ⟨htarget, rfl⟩ := transitionUpload_eq_ok.mp hmoves
      exact @Ledger.requeue _ _ _ _ _ now none
        (fun _ => retryAvailableAt attemptCount now) (fun _ => none) h hupload
        (FileUploadStatus.isActive_of_mem_allowedTransitions htarget)
    · obtain ⟨moved, hmoves, hfinished⟩ := bind_eq_ok_iff.mp hfinished
      cases hfinished
      exact (h.ended_manifest hupload hmoves rfl).2
    · obtain ⟨moved, hmoves, hfinished⟩ := bind_eq_ok_iff.mp hfinished
      cases hfinished
      exact (h.ended_manifest hupload hmoves rfl).2

theorem recordStagingDeleted (h : Reconciled s db)
    (hrecorded : db.recordStagingDeleted uploadId now = .ok db') : Reconciled s db' := by
  unfold FileDb.recordStagingDeleted at hrecorded
  split at hrecorded
  · cases hrecorded
    exact h
  · next upload hupload =>
    cases hrecorded
    obtain ⟨hmem, rfl⟩ := Table.get?_eq_some_iff.mp hupload
    exact h.keepUpload hupload (fun _ => rfl) (h.unleased upload hmem)

/-- `_commit_success` charges what the parser has measured, which must not be more than what was
reserved. -/
theorem commitSuccess {owner : ℕ} {processed : ProcessedColumns} {manifest : List ManifestEntry}
    (h : Reconciled s db)
    (hsize : ∀ u ∈ db.uploads, u.id = uploadId → processed.originalSizeBytes ≤ u.declaredSizeBytes)
    (hcommitted : db.commitSuccess s uploadId owner processed manifest now = .ok db') :
    Reconciled s db' := by
  unfold FileDb.commitSuccess at hcommitted
  -- by cases of the locked row: gone, lost lease, deleted owner, published
  split at hcommitted
  · cases hcommitted
    exact h
  · next upload hupload =>
    have hfacts : OnlyFacts db (db.enqueueManifestDeletions upload now) :=
      enqueueDeletions_onlyFacts
    have hqueued : Reconciled s (db.enqueueManifestDeletions upload now) := h.onlyFacts hfacts
    split_ifs at hcommitted with hlost howner
    · obtain ⟨moved, hmoves, hcommitted⟩ := bind_eq_ok_iff.mp hcommitted
      cases hcommitted
      exact (hqueued.ended_manifest (by rw [hfacts.uploads]; exact hupload) hmoves rfl).1
    · cases hcommitted
      exact hqueued
    · obtain ⟨moved, hmoves, hcommitted⟩ := bind_eq_ok_iff.mp hcommitted
      obtain ⟨htarget, rfl⟩ := transitionUpload_eq_ok.mp hmoves
      obtain ⟨hmem, rfl⟩ := Table.get?_eq_some_iff.mp hupload
      push Not at hlost
      -- only attachments hold a lease, so the branch has no avatar upload
      have hpurpose : upload.purpose = .messageAttachment := by
        cases hkind : upload.purpose with
        | messageAttachment => rfl
        | avatar =>
          have hnone := h.unleased upload hmem hkind
          rw [hlost.2.1] at hnone
          cases hnone
      have hactive : upload.status.isActive = true := by rw [hlost.1]; rfl
      have hbytes := hsize upload hmem rfl
      have hold (id : ℕ) := @reservedWeight_of_active _ id hpurpose hactive
      cases hcommitted
      set new := FileUpload.moved { upload with fileId := some db.files.next } .succeeded now none
        with hnew
      have hreserved (id : ℕ) : (db.uploads.set new).sum (reservedWeight id) =
          db.reservedSum id - reservedWeight id upload := by
        have hset := @Table.sum_set _ _ db.uploads new upload (reservedWeight id) hmem rfl
        have hzero : reservedWeight id new = 0 := reservedWeight_of_ended rfl
        rw [hzero] at hset
        exact hset.trans (by rw [reservedSum]; omega)
      have hle (id : ℕ) : reservedWeight id upload ≤ db.reservedSum id :=
        Table.le_sum (fun _ _ => reservedWeight_nonneg) hmem
      have hweight (id : ℕ) {file : FileAsset} (huser : file.userId = upload.userId)
          (hkind : file.purpose = upload.purpose) (hmeasured : file.sizeBytes =
            processed.originalSizeBytes) (hnone : file.deletionStartedAt = none) :
          usedWeight id file =
            if id = upload.userId then (processed.originalSizeBytes : ℤ) else 0 := by
        rw [usedWeight, huser, hkind, hmeasured]
        exact if_congr ⟨fun hall => hall.1.symm, fun heq => ⟨heq.symm, hpurpose, hnone⟩⟩ rfl rfl
      -- the reserved bytes become used ones; the sum only falls, as the file fits its claim
      refine ⟨fun id => ?_, fun id => ?_, fun id => ?_, ?_⟩
      · refine Eq.trans ?_ (congrArg (· + 0) (hreserved id).symm)
        have hquota := h.reserved id
        have hbound := hle id
        show _ = db.reservedSum id - reservedWeight id upload + 0
        rw [hold] at hbound ⊢
        by_cases hid : id = upload.userId
        · subst hid
          rw [if_pos rfl] at hbound ⊢
          refine (congrArg FileQuota.reservedBytes quotas_setQuota_self).trans ?_
          dsimp only
          rw [max_eq_right (by omega)]
          omega
        · refine (congrArg FileQuota.reservedBytes (quotas_setQuota_of_ne hid)).trans ?_
          rw [if_neg hid]
          refine hquota.trans ?_
          omega
      · refine Eq.trans ?_ Table.sum_insert.symm
        rw [hweight id rfl rfl rfl rfl]
        have hquota := h.used id
        rw [usedSum] at hquota
        by_cases hid : id = upload.userId
        · subst hid
          refine (congrArg FileQuota.usedBytes quotas_setQuota_self).trans ?_
          dsimp only
          rw [if_pos rfl, hquota]
        · refine (congrArg FileQuota.usedBytes (quotas_setQuota_of_ne hid)).trans ?_
          rw [if_neg hid, add_zero]
          exact hquota
      · refine (congrArg₂ (· + ·) Table.sum_insert (hreserved id)).le.trans ?_
        have hwithin := h.within id
        rw [hweight id rfl rfl rfl rfl, hold]
        rw [usedSum] at hwithin
        split_ifs <;> omega
      · exact Table.forall_mem_set h.unleased fun _ => rfl

/-- Between two transactions the quota holds the bytes of all that a request can cancel, so that it
is exact whenever the request cancels attachments only. -/
theorem covered_iff {uploadIds : List ℕ} (h : Reconciled s db) :
    Covered userId uploadIds db ↔ AttachmentsOnly userId uploadIds db := by
  refine ⟨fun hcovered => hcovered.toAttachmentsOnly, fun honly => ⟨honly, ?_, ?_⟩⟩
  · rw [h.reserved, add_zero]
    refine Table.sum_le_sum fun u _ => ?_
    split_ifs
    · exact le_rfl
    · exact reservedWeight_nonneg
  · rw [h.used]
    refine Table.sum_le_sum fun f _ => ?_
    split_ifs
    · exact le_rfl
    · exact usedWeight_nonneg

/-- `cancel_uploads` releases the bytes of all active uploads that the request names, which have to
be attachments. -/
theorem cancelUploads {uploadIds : List ℕ} (h : Reconciled s db)
    (hpurpose : ∀ u ∈ db.uploads, Stopped userId uploadIds u → u.purpose = .messageAttachment)
    (hcancelled : db.cancelUploads userId uploadIds now = .ok db') : Reconciled s db' := by
  unfold FileDb.cancelUploads at hcancelled
  obtain ⟨hlength, hcancelled⟩ := ite_error_eq_ok_iff.mp hcancelled
  obtain ⟨-, hcancelled⟩ := ite_error_eq_ok_iff.mp hcancelled
  rw [not_not] at hlength
  obtain ⟨hnodup, hfound⟩ := length_selected_iff.mp hlength
  change (orderedUploads userId uploadIds db).foldlM _
    (if ((orderedUploads userId uploadIds db).filter fun u => u.status.isActive) = [] then db
      else db.releaseReservedBytes userId ((((orderedUploads userId uploadIds db).filter fun u =>
        u.status.isActive).map FileUpload.declaredSizeBytes).sum : ℕ)) = Except.ok db' at hcancelled
  have hordered : ∀ u ∈ orderedUploads userId uploadIds db,
      u ∈ db.uploads ∧ Named userId uploadIds u := fun u hu => mem_orderedUploads.mp hu
  -- the bytes of the request are what its uploads reserve
  have hactive : (orderedUploads userId uploadIds db).filter (fun u => u.status.isActive) =
      (orderedUploads userId uploadIds db).filter fun u =>
        u.purpose = .messageAttachment ∧ u.status.isActive = true := by
    refine List.filter_congr fun u hu => ?_
    obtain ⟨hmem, hnamed⟩ := hordered u hu
    by_cases hstatus : u.status.isActive = true
    · simp [hstatus, hpurpose u hmem ⟨hnamed, hstatus⟩]
    · simp [hstatus]
  have hsum := @sum_reservedWeight (orderedUploads userId uploadIds db) userId fun u hu =>
    (hordered u hu).2.2
  rw [← hactive] at hsum
  set bytes : ℕ := (((orderedUploads userId uploadIds db).filter fun u =>
    u.status.isActive).map FileUpload.declaredSizeBytes).sum with hbytes
  have hstopped : (bytes : ℤ) ≤ db.reservedSum userId := by
    rw [hbytes, sum_active_orderedUploads hnodup hfound]
    refine Table.sum_le_sum fun u hu => ?_
    split_ifs with hstops
    · rw [reservedWeight_of_active (hpurpose u hu hstops) hstops.2, hstops.1.2, if_pos rfl]
    · exact reservedWeight_nonneg
  have hreleased : Ledger s (fun id => 0 - if id = userId then (bytes : ℤ) else 0)
      (if ((orderedUploads userId uploadIds db).filter fun u => u.status.isActive) = [] then db
        else db.releaseReservedBytes userId bytes) := by
    split_ifs with hnil
    · refine h.mono fun id => ?_
      rw [hbytes, hnil]
      simp
    · exact h.release (by rw [add_zero]; exact hstopped)
  have hrows : ∀ u ∈ orderedUploads userId uploadIds db, (if ((orderedUploads userId uploadIds
      db).filter fun u => u.status.isActive) = [] then db
        else db.releaseReservedBytes userId bytes).uploads.get? u.id = some u := by
    intro u hu
    have hget := Table.get?_key (hordered u hu).1
    split_ifs
    · exact hget
    · exact hget
  have hids : ((orderedUploads userId uploadIds db).map FileUpload.id).Nodup := by
    rw [map_id_orderedUploads hfound]
    exact hnodup
  have hend := hreleased.foldlM (fun _ _ _ _ hm hrow hstep => hm.cancelUpload hrow hstep) hids hrows
    hcancelled
  refine hend.mono fun id => ?_
  rw [hsum]
  split_ifs <;> omega

/-! ### The transactions of maintenance -/

theorem sweepUploads {selection : SweepSelection} (h : Reconciled s db)
    (hswept : db.sweepUploads s selection now = .ok db') : Reconciled s db' := by
  unfold FileDb.sweepUploads at hswept
  obtain ⟨processed, hprocessing, hswept⟩ := bind_eq_ok_iff.mp hswept
  obtain ⟨pending, hpending, hdirty⟩ := bind_eq_ok_iff.mp hswept
  have hprocessed : Reconciled s processed := by
    refine Except.foldlM_invariant (fun uploadId _ m m' hm hstep => ?_) h hprocessing
    unfold sweepProcessing at hstep
    split at hstep
    · cases hstep
    · next upload hupload =>
      obtain ⟨-, hstep⟩ := ite_error_eq_ok_iff.mp hstep
      split_ifs at hstep
      · obtain ⟨moved, hmoves, hstep⟩ := bind_eq_ok_iff.mp hstep
        cases hstep
        exact (ended_manifest hm hupload hmoves rfl).2
      · obtain ⟨moved, hmoves, hstep⟩ := bind_eq_ok_iff.mp hstep
        cases hstep
        obtain ⟨htarget, rfl⟩ := transitionUpload_eq_ok.mp hmoves
        exact @Ledger.requeue _ _ _ _ _ now none
          (fun _ => retryAvailableAt upload.attemptCount now) id hm hupload
          (FileUploadStatus.isActive_of_mem_allowedTransitions htarget)
  have hexpired : Reconciled s pending := by
    refine Except.foldlM_invariant (fun uploadId _ m m' hm hstep => ?_) hprocessed hpending
    unfold sweepPending at hstep
    split at hstep
    · cases hstep
    · next upload hupload =>
      obtain ⟨-, hstep⟩ := ite_error_eq_ok_iff.mp hstep
      obtain ⟨moved, hmoves, hstep⟩ := bind_eq_ok_iff.mp hstep
      cases hstep
      exact (ended_manifest hm hupload hmoves rfl).1
  refine Except.foldlM_invariant (fun uploadId _ m m' hm hstep => ?_) hexpired hdirty
  unfold sweepDirty at hstep
  split at hstep
  · cases hstep
  · next upload hupload =>
    obtain ⟨-, hstep⟩ := ite_error_eq_ok_iff.mp hstep
    cases hstep
    have hfacts : OnlyFacts m (m.enqueueManifestDeletions upload now) := enqueueDeletions_onlyFacts
    obtain ⟨hmem, rfl⟩ := Table.get?_eq_some_iff.mp hupload
    have hrow : (m.enqueueManifestDeletions upload now).uploads.get? upload.id = some upload := by
      rw [hfacts.uploads]
      exact hupload
    exact (Ledger.onlyFacts hm hfacts).keepUpload hrow (fun _ => rfl) (hm.unleased upload hmem)

theorem cleanupStaging (h : Reconciled s db)
    (hcleaned : db.cleanupStaging s uploadId now = .ok db') : Reconciled s db' := by
  unfold FileDb.cleanupStaging at hcleaned
  split at hcleaned
  · cases hcleaned
  · next upload hupload =>
    obtain ⟨-, hcleaned⟩ := ite_error_eq_ok_iff.mp hcleaned
    cases hcleaned
    obtain ⟨hmem, rfl⟩ := Table.get?_eq_some_iff.mp hupload
    exact h.keepUpload hupload (fun _ => rfl) (h.unleased upload hmem)

theorem reclaimAssets {fileIds : List ℕ} (h : Reconciled s db)
    (hreclaimed : db.reclaimAssets s fileIds now = .ok db') : Reconciled s db' := by
  refine Except.foldlM_invariant (fun fileId _ m m' hm hstep => ?_) h hreclaimed
  unfold reclaimAsset at hstep
  split at hstep
  · cases hstep
  · next file hfile =>
    split_ifs at hstep with hreclaimable
    refine hm.beginAssetDeletion (fun _ row hmem hid => ?_) hstep
    rw [Table.eq_of_key_eq hmem (Table.mem_of_get? hfile) hid]

theorem completeDeletion {deletionId : ℕ} (h : Reconciled s db)
    (hcompleted : db.completeDeletion deletionId now = .ok db') : Reconciled s db' := by
  unfold FileDb.completeDeletion at hcompleted
  split at hcompleted
  · cases hcompleted
  · obtain ⟨-, hcompleted⟩ := ite_error_eq_ok_iff.mp hcompleted
    dsimp only at hcompleted
    split at hcompleted
    · cases hcompleted
      exact h.congr rfl (fun _ => rfl) (fun _ => rfl) h.unleased
    · next object _ =>
      cases hcompleted
      unfold deleteEmptyAsset
      split
      · exact h.congr rfl (fun _ => rfl) (fun _ => rfl) h.unleased
      · next file hfile =>
        split_ifs with hempty
        · have hdeleted : Reconciled s ((db.deleteObject object.id).deleteAsset object.fileId) :=
            Ledger.deleteAsset (h.congr rfl (fun _ => rfl) (fun _ => rfl) h.unleased) hfile hempty.2
          exact hdeleted.congr rfl (fun _ => rfl) (fun _ => rfl) hdeleted.unleased
        · exact h.congr rfl (fun _ => rfl) (fun _ => rfl) h.unleased

theorem retryDeletion {deletionId : ℕ} (h : Reconciled s db)
    (hretried : db.retryDeletion deletionId now = .ok db') : Reconciled s db' := by
  unfold FileDb.retryDeletion at hretried
  split at hretried
  · cases hretried
  · obtain ⟨-, hretried⟩ := ite_error_eq_ok_iff.mp hretried
    cases hretried
    exact h.congr rfl (fun _ => rfl) (fun _ => rfl) h.unleased

/-- Nothing is left to reconcile. -/
theorem reconcileQuota (h : Reconciled s db) : Reconciled s (db.reconcileQuota userId) := by
  refine h.congr (funext fun id => ?_) (fun _ => rfl) (fun _ => rfl) h.unleased
  by_cases hid : id = userId
  · subst hid
    have hreserved := h.reserved id
    rw [add_zero] at hreserved
    refine (Function.update_self _ _ _).trans ?_
    rw [← hreserved, ← h.used]
  · exact Function.update_of_ne hid _ _

theorem deactivateUser (h : Reconciled s db)
    (hdeactivated : db.deactivateUser userId now = .ok db') : Reconciled s db' := by
  unfold FileDb.deactivateUser at hdeactivated
  set uploads := db.uploads.rows.filter fun u => u.userId = userId ∧ u.status.isActive = true
    with huploads
  obtain ⟨m, hloop, hdeactivated⟩ := bind_eq_ok_iff.mp hdeactivated
  cases hdeactivated
  have hmem : ∀ u ∈ uploads, u ∈ db.uploads ∧ u.userId = userId ∧ u.status.isActive = true := by
    intro u hu
    obtain ⟨hrow, hselected⟩ := List.mem_filter.mp hu
    exact ⟨hrow, of_decide_eq_true hselected⟩
  have hended := h.foldlM (f := deactivateUpload now) (fun owed db upload db' h hrow hstep => ?_)
    (db.uploads.nodup.sublist (List.filter_sublist.map _))
    (fun u hu => Table.get?_key (hmem u hu).1) hloop
  · have hsum := @sum_reservedWeight uploads userId fun u hu => (hmem u hu).2.1
    have hattachments : uploads.filter (fun u => u.purpose = .messageAttachment) =
        uploads.filter fun u => u.purpose = .messageAttachment ∧ u.status.isActive = true := by
      refine List.filter_congr fun u hu => ?_
      rw [(hmem u hu).2.2]
      simp
    rw [← hattachments] at hsum
    set bytes : ℕ := ((uploads.filter fun u => u.purpose = .messageAttachment).map
      FileUpload.declaredSizeBytes).sum
    suffices hreleased : Reconciled s
        (if bytes ≠ 0 then m.releaseReservedBytes userId bytes else m) from
      hreleased.congr rfl (fun _ => rfl) (fun _ => rfl) hreleased.unleased
    split_ifs with hnone
    · refine (hended.release ?_).mono fun id => ?_
      · rw [hsum, if_pos rfl]
        have := @reservedSum_nonneg m userId
        omega
      · rw [hsum]
        omega
    · refine hended.mono fun id => ?_
      rw [hsum]
      rw [not_not] at hnone
      rw [hnone]
      simp
  · unfold deactivateUpload at hstep
    obtain ⟨moved, hmoves, hstep⟩ := bind_eq_ok_iff.mp hstep
    cases hstep
    obtain ⟨-, rfl⟩ := transitionUpload_eq_ok.mp hmoves
    have hset := @Ledger.endUpload _ _ _ _ now .cancelled (some "account_inactive") h hrow rfl
    have hothers : ∀ id, id ≠ upload.id → (db.setUpload (upload.moved .cancelled now
        (some "account_inactive"))).uploads.get? id = db.uploads.get? id := by
      intro id hne
      refine (Table.get?_set ⟨upload, Table.mem_of_get? hrow, FileUpload.moved_id.symm⟩).trans ?_
      rw [FileUpload.moved_id, if_neg hne]
    split_ifs
    · refine ⟨hset.onlyFacts enqueueDeletions_onlyFacts, fun id hne => ?_⟩
      rw [enqueueManifestDeletions, enqueueDeletions_onlyFacts.uploads]
      exact hothers id hne
    · exact ⟨hset, hothers⟩

end Reconciled

end FileDb

end IChat.Files
