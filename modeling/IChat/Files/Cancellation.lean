import Mathlib.Algebra.GroupWithZero.Nat
import IChat.Files.Maintenance

/-!
# Cancelling a draft

`cancel_uploads` cancels a set of uploads in one transaction: it checks all of them, releases one
reservation for the active ones, and then cancels each upload or begins the deletion of its asset.

* `cancelUploads_eq_error`: it raises unless the set is `Cancellable`.
* `exists_cancelUploads`: otherwise it does what `Cancelled` says, and nothing when it is repeated.
  The bytes are released up to zero, and for the assets that count (`usedWeight`).
* `cancelUploads_allOrNothing_iff`: the quota gives back exactly the bytes of what was cancelled,
  and these are the bytes that it held for that, if the request cancels attachments only and the
  quota holds their bytes (`Covered`). The reservation of an avatar upload, which has none, is
  released as well, at the cost of the attachments on their way.
-/

namespace IChat.Files

/-- The asset has come out of the upload. -/
def FileUpload.Made (upload : FileUpload) (fileId : ℕ) : Prop :=
  upload.status = .succeeded ∧ upload.fileId = some fileId

instance (upload : FileUpload) (fileId : ℕ) : Decidable (upload.Made fileId) :=
  inferInstanceAs (Decidable (_ ∧ _))

namespace FileDb

section definitions

variable (userId : ℕ) (uploadIds : List ℕ) (db : FileDb)

/-- An upload of the user that the request names. -/
def Named (upload : FileUpload) : Prop := upload.id ∈ uploadIds ∧ upload.userId = userId

instance (upload : FileUpload) : Decidable (Named userId uploadIds upload) :=
  inferInstanceAs (Decidable (_ ∧ _))

/-- An upload that the request cancels. -/
def Stopped (upload : FileUpload) : Prop :=
  Named userId uploadIds upload ∧ upload.status.isActive = true

instance (upload : FileUpload) : Decidable (Stopped userId uploadIds upload) :=
  inferInstanceAs (Decidable (_ ∧ _))

/-- An asset whose deletion the request begins. -/
def Doomed (file : FileAsset) : Prop :=
  file.deletionStartedAt = none ∧
    ∃ upload ∈ db.uploads, Named userId uploadIds upload ∧ upload.Made file.id

instance (file : FileAsset) : Decidable (Doomed userId uploadIds db file) :=
  inferInstanceAs (Decidable (_ ∧ ∃ upload ∈ db.uploads.rows, _))

/-- The declared sizes of the uploads that the request cancels. -/
def stoppedBytes : ℤ :=
  db.uploads.sum fun u => if Stopped userId uploadIds u then u.declaredSizeBytes else 0

/-- The part of these bytes that is reserved. -/
def heldBytes : ℤ :=
  db.uploads.sum fun u => if Stopped userId uploadIds u then reservedWeight userId u else 0

/-- The sizes of the assets whose deletion the request begins. -/
def doomedBytes : ℤ :=
  db.files.sum fun f => if Doomed userId uploadIds db f then f.sizeBytes else 0

/-- The part of these bytes that the user has used. -/
def countedBytes : ℤ :=
  db.files.sum fun f => if Doomed userId uploadIds db f then usedWeight userId f else 0

/-- The request passes the checks: its ids are distinct, they name uploads of the user, and no
asset of them is bound. -/
structure Cancellable : Prop where
  nodup : uploadIds.Nodup
  found : ∀ id ∈ uploadIds, ∃ upload, db.uploads.get? id = some upload ∧ upload.userId = userId
  unbound : ∀ upload ∈ db.uploads, Named userId uploadIds upload →
    ∀ file ∈ db.succeededAsset upload, file.boundAt = none

/-- What the request does to the rows: the active uploads are cancelled, the deletion of the assets
has begun, with the facts for their objects, and the other rows are as they were. -/
structure Cancelled (now : ℕ) (db' : FileDb) : Prop where
  uploads : ∀ id, db'.uploads.get? id = (db.uploads.get? id).map fun u =>
    if Stopped userId uploadIds u then u.moved .cancelled now (some "upload_cancelled") else u
  files : ∀ id, db'.files.get? id = (db.files.get? id).map fun f =>
    if Doomed userId uploadIds db f then { f with deletionStartedAt := some now } else f
  facts : ∀ file ∈ db.files, Doomed userId uploadIds db file → ∀ object ∈ db.objectsOf file.id,
    ∀ target ∈ object.targets file.purpose,
      ∃ d ∈ db'.deletions, d.Names target.storageLocation target.objectKey

/-- The request releases the bytes of what it cancels, and these are the bytes that were reserved
and used for it. -/
structure QuotaReleased (db' : FileDb) : Prop where
  reserved : (db'.quotas userId).reservedBytes =
    (db.quotas userId).reservedBytes - stoppedBytes userId uploadIds db
  reservations : (db'.quotas userId).reservedBytes =
    (db.quotas userId).reservedBytes - heldBytes userId uploadIds db
  used : (db'.quotas userId).usedBytes =
    (db.quotas userId).usedBytes - doomedBytes userId uploadIds db
  usage : (db'.quotas userId).usedBytes =
    (db.quotas userId).usedBytes - countedBytes userId uploadIds db

/-- No upload or asset that the request cancels is an avatar, or anything else that the quota does
not count, unless it is empty. -/
structure AttachmentsOnly : Prop where
  uploads : ∀ upload ∈ db.uploads, Stopped userId uploadIds upload →
    upload.declaredSizeBytes ≠ 0 → upload.purpose = .messageAttachment
  assets : ∀ file ∈ db.files, Doomed userId uploadIds db file → file.sizeBytes ≠ 0 →
    file.userId = userId ∧ file.purpose = .messageAttachment

/-- The request cancels attachments, and the quota holds their bytes. -/
structure Covered : Prop extends AttachmentsOnly userId uploadIds db where
  reserved : heldBytes userId uploadIds db ≤ (db.quotas userId).reservedBytes
  used : countedBytes userId uploadIds db ≤ (db.quotas userId).usedBytes

end definitions

variable {userId : ℕ} {uploadIds : List ℕ} {db db' : FileDb} {now : ℕ} {upload : FileUpload}
  {file : FileAsset}

/-! ### The rows of a request -/

/-- The rows that the first query finds. -/
def selected (userId : ℕ) (uploadIds : List ℕ) (db : FileDb) : List FileUpload :=
  db.uploads.rows.filter fun u => u.id ∈ uploadIds ∧ u.userId = userId

/-- The uploads in the order of the request. -/
def orderedUploads (userId : ℕ) (uploadIds : List ℕ) (db : FileDb) : List FileUpload :=
  uploadIds.filterMap fun uploadId => (selected userId uploadIds db).find? fun u => u.id = uploadId

theorem mem_selected :
    upload ∈ selected userId uploadIds db ↔ upload ∈ db.uploads ∧
      Named userId uploadIds upload := by
  rw [selected, List.mem_filter, decide_eq_true_eq]
  rfl

theorem nodup_selected : ((selected userId uploadIds db).map FileUpload.id).Nodup :=
  db.uploads.nodup.sublist (List.filter_sublist.map _)

theorem find?_selected {id : ℕ} :
    (selected userId uploadIds db).find? (fun u => u.id = id) = some upload ↔
      upload ∈ db.uploads ∧ Named userId uploadIds upload ∧ upload.id = id := by
  constructor
  · intro hfind
    obtain ⟨hmem, hnamed⟩ := mem_selected.mp (List.mem_of_find?_eq_some hfind)
    exact ⟨hmem, hnamed, by simpa using List.find?_some hfind⟩
  · rintro ⟨hmem, hnamed, hid⟩
    have hselected := mem_selected.mpr ⟨hmem, hnamed⟩
    cases hfind : (selected userId uploadIds db).find? fun u => u.id = id with
    | none =>
      have hnone := List.find?_eq_none.mp hfind upload hselected
      simp [hid] at hnone
    | some other =>
      have hother := mem_selected.mp (List.mem_of_find?_eq_some hfind)
      have hkey : other.id = id := by simpa using List.find?_some hfind
      rw [Table.eq_of_key_eq hother.1 hmem (hkey.trans hid.symm)]

theorem mem_orderedUploads :
    upload ∈ orderedUploads userId uploadIds db ↔
      upload ∈ db.uploads ∧ Named userId uploadIds upload := by
  rw [orderedUploads, List.mem_filterMap]
  constructor
  · rintro ⟨id, -, hfind⟩
    obtain ⟨hmem, hnamed, -⟩ := find?_selected.mp hfind
    exact ⟨hmem, hnamed⟩
  · rintro ⟨hmem, hnamed⟩
    exact ⟨upload.id, hnamed.1, find?_selected.mpr ⟨hmem, hnamed, rfl⟩⟩

/-- As many rows as ids are found exactly if the ids are distinct and all of them are. -/
theorem length_selected_iff :
    (selected userId uploadIds db).length = uploadIds.length ↔
      uploadIds.Nodup ∧
        ∀ id ∈ uploadIds, ∃ upload, db.uploads.get? id = some upload ∧ upload.userId = userId := by
  have hsub : (selected userId uploadIds db).map FileUpload.id ⊆ uploadIds := by
    intro id hid
    obtain ⟨upload, hupload, rfl⟩ := List.mem_map.mp hid
    exact (mem_selected.mp hupload).2.1
  constructor
  · intro hlength
    have hperm : ((selected userId uploadIds db).map FileUpload.id).Perm uploadIds := by
      refine (List.subperm_of_subset nodup_selected hsub).perm_of_length_le ?_
      rw [List.length_map]
      exact hlength.ge
    refine ⟨hperm.nodup_iff.mp nodup_selected, fun id hid => ?_⟩
    obtain ⟨upload, hupload, rfl⟩ := List.mem_map.mp (hperm.mem_iff.mpr hid)
    obtain ⟨hmem, hnamed⟩ := mem_selected.mp hupload
    exact ⟨upload, Table.get?_key hmem, hnamed.2⟩
  · rintro ⟨hnodup, hfound⟩
    have hperm : ((selected userId uploadIds db).map FileUpload.id).Perm uploadIds := by
      refine (List.perm_ext_iff_of_nodup nodup_selected hnodup).mpr fun id =>
        ⟨fun hid => hsub hid, fun hid => ?_⟩
      obtain ⟨upload, hget, huser⟩ := hfound id hid
      obtain ⟨hmem, rfl⟩ := Table.get?_eq_some_iff.mp hget
      exact List.mem_map_of_mem (mem_selected.mpr ⟨hmem, hid, huser⟩)
    rw [← hperm.length_eq, List.length_map]

/-- The ids of the uploads in their order are those of the request. -/
theorem map_id_orderedUploads
    (h : ∀ id ∈ uploadIds, ∃ upload, db.uploads.get? id = some upload ∧ upload.userId = userId) :
    (orderedUploads userId uploadIds db).map FileUpload.id = uploadIds := by
  have hids : ∀ ids : List ℕ, (∀ id ∈ ids, id ∈ uploadIds) →
      (ids.filterMap fun uploadId =>
        (selected userId uploadIds db).find? fun u => u.id = uploadId).map FileUpload.id = ids := by
    intro ids
    induction ids with
    | nil => exact fun _ => rfl
    | cons id ids ih =>
      intro hsub
      have hid := hsub id List.mem_cons_self
      obtain ⟨upload, hget, huser⟩ := h id hid
      obtain ⟨hmem, hkey⟩ := Table.get?_eq_some_iff.mp hget
      have hfind := find?_selected.mpr ⟨hmem, ⟨hkey.symm ▸ hid, huser⟩, hkey⟩
      rw [List.filterMap_cons, hfind]
      dsimp only
      rw [List.map_cons, hkey, ih fun id hid => hsub id (List.mem_cons_of_mem _ hid)]
  exact hids uploadIds fun _ hid => hid

/-- The reservation that is released is that of the uploads that are cancelled. -/
theorem sum_active_orderedUploads
    (hnodup : uploadIds.Nodup)
    (h : ∀ id ∈ uploadIds, ∃ upload, db.uploads.get? id = some upload ∧ upload.userId = userId) :
    ((((orderedUploads userId uploadIds db).filter fun u => u.status.isActive).map
      FileUpload.declaredSizeBytes).sum : ℕ) = stoppedBytes userId uploadIds db := by
  have hordered : (orderedUploads userId uploadIds db).Nodup := by
    refine List.Nodup.of_map FileUpload.id ?_
    rw [map_id_orderedUploads h]
    exact hnodup
  have hperm : (orderedUploads userId uploadIds db).Perm (selected userId uploadIds db) :=
    (List.perm_ext_iff_of_nodup hordered nodup_selected.of_map).mpr fun upload =>
      mem_orderedUploads.trans mem_selected.symm
  have hsum := ((hperm.filter fun u => u.status.isActive).map FileUpload.declaredSizeBytes).sum_eq
  have hcast : ∀ uploads : List FileUpload,
      ((uploads.map FileUpload.declaredSizeBytes).sum : ℤ) =
        (uploads.map fun u => (u.declaredSizeBytes : ℤ)).sum := by
    intro uploads
    induction uploads with
    | nil => rfl
    | cons u uploads ih =>
      rw [List.map_cons, List.map_cons, List.sum_cons, List.sum_cons, ← ih]
      omega
  rw [hsum, hcast, stoppedBytes, selected, List.filter_filter]
  refine (@Table.sum_filter _ _ db.uploads (fun u => (u.declaredSizeBytes : ℤ)) _).trans ?_
  refine Table.sum_congr fun u _ => if_congr ?_ rfl rfl
  rw [Bool.and_eq_true, decide_eq_true_eq, Stopped, Named]
  exact and_comm

/-! ### One upload -/

theorem usedWeight_nonneg : 0 ≤ usedWeight userId file := by
  unfold usedWeight
  split_ifs <;> omega

/-- Beginning the deletion of an asset as it is: its row is marked, the facts are there, and the
bytes of its owner are released. -/
theorem beginAssetDeletion_current (hfile : file ∈ db.files) (hnone : file.deletionStartedAt = none)
    (hused : 0 ≤ (db.quotas userId).usedBytes) :
    ∃ db', db.beginAssetDeletion file now = .ok db' ∧
      db'.files = db.files.set { file with deletionStartedAt := some now } ∧
      db'.uploads = db.uploads ∧ db'.objects = db.objects ∧
      (db'.quotas userId).reservedBytes = (db.quotas userId).reservedBytes ∧
      (db'.quotas userId).usedBytes =
        max 0 ((db.quotas userId).usedBytes - usedWeight userId file) ∧
      (∀ d ∈ db.deletions, d ∈ db'.deletions) ∧
      ∀ object ∈ db.objectsOf file.id, ∀ target ∈ object.targets file.purpose,
        ∃ d ∈ db'.deletions, d.Names target.storageLocation target.objectKey := by
  let marked := { db with files := db.files.set { file with deletionStartedAt := some now } }
  let targets := (marked.objectsOf file.id).flatMap (FileObject.targets file.purpose)
  have honly : OnlyFacts marked (marked.enqueueDeletions targets now) := enqueueDeletions_onlyFacts
  have hadded : FactsAdded marked (marked.enqueueDeletions targets now) targets :=
    enqueueDeletions_factsAdded
  have hfacts : ∀ object ∈ db.objectsOf file.id, ∀ target ∈ object.targets file.purpose,
      ∃ d ∈ (marked.enqueueDeletions targets now).deletions,
        d.Names target.storageLocation target.objectKey :=
    fun object hobject target htarget =>
      exists_enqueueDeletions (List.mem_flatMap.mpr ⟨object, hobject, htarget⟩)
  refine ⟨_, beginAssetDeletion_eq_ok.mpr (.inr ⟨hnone, file, hfile, rfl, rfl⟩), ?_⟩
  have hquota : (marked.enqueueDeletions targets now).quotas = db.quotas := honly.quotas
  by_cases hpurpose : file.purpose = .messageAttachment
  · rw [if_pos hpurpose]
    refine ⟨honly.files, honly.uploads, honly.objects, ?_, ?_, hadded.kept, hfacts⟩
    · show (Function.update (marked.enqueueDeletions targets now).quotas file.userId
        _ userId).reservedBytes = _
      by_cases huser : userId = file.userId
      · rw [huser, Function.update_self, hquota]
      · rw [Function.update_of_ne huser, hquota]
    · show (Function.update (marked.enqueueDeletions targets now).quotas file.userId
        _ userId).usedBytes = _
      by_cases huser : userId = file.userId
      · rw [huser, Function.update_self, hquota, usedWeight, if_pos ⟨rfl, hpurpose, hnone⟩]
      · rw [Function.update_of_ne huser, hquota, usedWeight, if_neg fun h => huser h.1.symm]
        omega
  · rw [if_neg hpurpose]
    refine ⟨honly.files, honly.uploads, honly.objects, ?_, ?_, hadded.kept, hfacts⟩
    · rw [hquota]
    · rw [hquota, usedWeight, if_neg fun h => hpurpose h.2.1]
      omega

/-- The bytes that the assets of some uploads still count. -/
def countedOf (userId : ℕ) (uploads : List FileUpload) (db : FileDb) : ℤ :=
  db.files.sum fun f => if ∃ u ∈ uploads, u.Made f.id then usedWeight userId f else 0

/-- The uploads of a batch have been cancelled, except for those that are left. -/
structure Progress (userId : ℕ) (batch : List FileUpload) (now : ℕ) (db : FileDb)
    (left : List FileUpload) (db' : FileDb) : Prop where
  nodup : (left.map FileUpload.id).Nodup
  sub : ∀ u ∈ left, u ∈ batch
  uploads : ∀ id, db'.uploads.get? id = (db.uploads.get? id).map fun u =>
    if (u ∈ batch ∧ u ∉ left) ∧ u.status.isActive = true then
      u.moved .cancelled now (some "upload_cancelled")
    else u
  files : ∀ id, db'.files.get? id = (db.files.get? id).map fun f =>
    if f.deletionStartedAt = none ∧ ∃ u ∈ batch, u ∉ left ∧ u.Made f.id then
      { f with deletionStartedAt := some now }
    else f
  objects : db'.objects = db.objects
  facts : ∀ file ∈ db.files, file.deletionStartedAt = none →
    (∃ u ∈ batch, u ∉ left ∧ u.Made file.id) → ∀ object ∈ db.objectsOf file.id,
      ∀ target ∈ object.targets file.purpose,
        ∃ d ∈ db'.deletions, d.Names target.storageLocation target.objectKey
  reserved : (db'.quotas userId).reservedBytes = (db.quotas userId).reservedBytes
  used : (db'.quotas userId).usedBytes = max 0 ((db.quotas userId).usedBytes -
    (countedOf userId batch db - countedOf userId batch db'))

variable {batch left : List FileUpload} {m : FileDb}

theorem Progress.start (hnodup : (batch.map FileUpload.id).Nodup)
    (hused : 0 ≤ (db.quotas userId).usedBytes) : Progress userId batch now db batch db where
  nodup := hnodup
  sub _ h := h
  uploads id := by
    cases db.uploads.get? id with
    | none => rfl
    | some => exact congrArg some (if_neg fun h => h.1.2 h.1.1).symm
  files id := by
    cases db.files.get? id with
    | none => rfl
    | some =>
      refine congrArg some (if_neg ?_).symm
      rintro ⟨-, u, hu, hnot, -⟩
      exact hnot hu
  objects := rfl
  facts _ _ _ h := by
    obtain ⟨u, hu, hnot, -⟩ := h
    exact absurd hu hnot
  reserved := rfl
  used := by omega

/-- An upload that is left has not been touched. -/
theorem Progress.get?_left (h : Progress userId batch now db left m)
    (hrows : ∀ u ∈ batch, u ∈ db.uploads) (hu : upload ∈ left) :
    m.uploads.get? upload.id = some upload := by
  rw [h.uploads, Table.get?_key (hrows upload (h.sub upload hu))]
  exact congrArg some (if_neg fun hdone => hdone.1.2 hu)

/-- What is done after the next upload. -/
theorem Progress.done_iff (h : Progress userId batch now db (upload :: left) m) {u : FileUpload} :
    (u ∈ batch ∧ u ∉ left) ↔ (u ∈ batch ∧ u ∉ upload :: left) ∨ u = upload := by
  have hfresh : upload ∉ left := fun hleft =>
    (List.nodup_cons.mp h.nodup).1 (List.mem_map_of_mem hleft)
  rw [List.mem_cons, not_or]
  constructor
  · rintro ⟨hu, hnot⟩
    by_cases heq : u = upload
    · exact .inr heq
    · exact .inl ⟨hu, heq, hnot⟩
  · rintro (⟨hu, -, hnot⟩ | rfl)
    · exact ⟨hu, hnot⟩
    · exact ⟨h.sub u List.mem_cons_self, hfresh⟩

/-- The assets that have come out of what is done. -/
theorem Progress.made_iff (h : Progress userId batch now db (upload :: left) m) {id : ℕ} :
    (∃ u ∈ batch, u ∉ left ∧ u.Made id) ↔
      (∃ u ∈ batch, u ∉ upload :: left ∧ u.Made id) ∨ upload.Made id := by
  constructor
  · rintro ⟨u, hu, hnot, hmade⟩
    rcases h.done_iff.mp ⟨hu, hnot⟩ with ⟨hu, hnot⟩ | rfl
    · exact .inl ⟨u, hu, hnot, hmade⟩
    · exact .inr hmade
  · rintro (⟨u, hu, hnot, hmade⟩ | hmade)
    · obtain ⟨hu, hnot⟩ := h.done_iff.mpr (.inl ⟨hu, hnot⟩)
      exact ⟨u, hu, hnot, hmade⟩
    · obtain ⟨hu, hnot⟩ := h.done_iff.mpr (.inr rfl)
      exact ⟨upload, hu, hnot, hmade⟩

/-- An upload without an effect: it is at an end, and its asset has been dealt with. -/
theorem Progress.skip (h : Progress userId batch now db (upload :: left) m)
    (hactive : upload.status.isActive = false)
    (hasset : ∀ f ∈ db.files, f.deletionStartedAt = none → upload.Made f.id →
      ∃ u ∈ batch, u ∉ upload :: left ∧ u.Made f.id) :
    Progress userId batch now db left m := by
  have hsame : ∀ f ∈ db.files, (f.deletionStartedAt = none ∧ ∃ u ∈ batch, u ∉ left ∧ u.Made f.id) ↔
      (f.deletionStartedAt = none ∧ ∃ u ∈ batch, u ∉ upload :: left ∧ u.Made f.id) := by
    intro f hf
    refine and_congr_right fun hnone => h.made_iff.trans ?_
    exact ⟨fun hmade => hmade.elim id (hasset f hf hnone), .inl⟩
  refine
    { nodup := (List.nodup_cons.mp h.nodup).2
      sub := fun u hu => h.sub u (List.mem_cons_of_mem _ hu)
      uploads := fun id => ?_
      files := fun id => ?_
      objects := h.objects
      facts := fun f hf hnone hmade => h.facts f hf hnone ((hsame f hf).mp ⟨hnone, hmade⟩).2
      reserved := h.reserved
      used := h.used }
  · rw [h.uploads]
    cases db.uploads.get? id with
    | none => rfl
    | some =>
      refine congrArg some (if_congr ?_ rfl rfl)
      refine and_congr_left fun hu => (h.done_iff.trans (or_iff_left ?_)).symm
      rintro rfl
      exact Bool.false_ne_true (hactive.symm.trans hu)
  · rw [h.files]
    cases hget : db.files.get? id with
    | none => rfl
    | some f => exact congrArg some (if_congr (hsame f (Table.mem_of_get? hget)).symm rfl rfl)

/-- An active upload is cancelled. -/
theorem Progress.stop (h : Progress userId batch now db (upload :: left) m)
    (hrows : ∀ u ∈ batch, u ∈ db.uploads) (hactive : upload.status.isActive = true) :
    Progress userId batch now db left
      (m.setUpload (upload.moved .cancelled now (some "upload_cancelled"))) := by
  have hget : m.uploads.get? upload.id = some upload := h.get?_left hrows List.mem_cons_self
  have hdb := Table.get?_key (hrows upload (h.sub upload List.mem_cons_self))
  have hmade : ∀ id, (∃ u ∈ batch, u ∉ left ∧ u.Made id) ↔
      ∃ u ∈ batch, u ∉ upload :: left ∧ u.Made id := by
    intro id
    refine h.made_iff.trans (or_iff_left ?_)
    rintro ⟨hsucceeded, -⟩
    rw [hsucceeded] at hactive
    cases hactive
  refine
    { nodup := (List.nodup_cons.mp h.nodup).2
      sub := fun u hu => h.sub u (List.mem_cons_of_mem _ hu)
      uploads := fun id => ?_
      files := fun id => ?_
      objects := h.objects
      facts := fun f hf hnone hf' => h.facts f hf hnone ((hmade f.id).mp hf')
      reserved := h.reserved
      used := h.used }
  · have hkey : ∃ u ∈ m.uploads,
        u.id = (upload.moved .cancelled now (some "upload_cancelled")).id :=
      ⟨upload, Table.mem_of_get? hget, FileUpload.moved_id.symm⟩
    show (m.uploads.set _).get? id = _
    rw [Table.get?_set hkey, FileUpload.moved_id]
    split_ifs with hid
    · rw [hid, hdb]
      exact congrArg some (if_pos ⟨h.done_iff.mpr (.inr rfl), hactive⟩).symm
    · rw [h.uploads]
      cases hrow : db.uploads.get? id with
      | none => rfl
      | some =>
        refine congrArg some (if_congr (and_congr_left fun _ => ?_) rfl rfl)
        refine (h.done_iff.trans (or_iff_left ?_)).symm
        rintro rfl
        exact hid (Table.key_of_get? hrow).symm
  · show m.files.get? id = _
    simp only [h.files, hmade]

/-- The deletion of an asset is begun. -/
theorem Progress.begin (h : Progress userId batch now db (upload :: left) m)
    (hactive : upload.status.isActive = false) (hmade : upload.Made file.id)
    (hfile : file ∈ m.files) (hnone : file.deletionStartedAt = none) :
    ∃ m', m.beginAssetDeletion file now = .ok m' ∧ Progress userId batch now db left m' := by
  have hget := h.files file.id
  rw [Table.get?_key hfile] at hget
  -- the file still stands, so no upload done so far made it
  obtain ⟨f, hf, heq⟩ := Option.map_eq_some_iff.mp hget.symm
  have hundone : ¬(f.deletionStartedAt = none ∧
      ∃ u ∈ batch, u ∉ upload :: left ∧ u.Made f.id) := by
    intro hdone
    rw [if_pos hdone] at heq
    rw [← heq] at hnone
    cases hnone
  rw [if_neg hundone] at heq
  subst heq
  have hmem := Table.mem_of_get? hf
  obtain ⟨m', hok, hfiles, huploads, hobjects, hreserved, hused, hkept, hfacts⟩ :=
    @beginAssetDeletion_current userId m now f hfile hnone (by rw [h.used]; omega)
  refine ⟨m', hok,
    { nodup := (List.nodup_cons.mp h.nodup).2
      sub := fun u hu => h.sub u (List.mem_cons_of_mem _ hu)
      uploads := fun id => ?_
      files := fun id => ?_
      objects := hobjects.trans h.objects
      facts := fun f' hf' hnone' hmade' => ?_
      reserved := hreserved.trans h.reserved
      used := ?_ }⟩
  -- the uploads left are the same but this one, which has ended
  · rw [huploads, h.uploads]
    cases db.uploads.get? id with
    | none => rfl
    | some =>
      refine congrArg some (if_congr ?_ rfl rfl)
      refine and_congr_left fun hu => (h.done_iff.trans (or_iff_left ?_)).symm
      rintro rfl
      exact Bool.false_ne_true (hactive.symm.trans hu)
  · have hkey : ∃ r ∈ m.files, r.id = FileAsset.id { f with deletionStartedAt := some now } :=
      ⟨f, hfile, rfl⟩
    rw [hfiles, Table.get?_set hkey]
    dsimp only
    split_ifs with hid
    · rw [hid, hf]
      exact congrArg some (if_pos ⟨hnone, h.made_iff.mpr (.inr hmade)⟩).symm
    · rw [h.files]
      cases hrow : db.files.get? id with
      | none => rfl
      | some =>
        refine congrArg some (if_congr (and_congr_right fun _ => ?_) rfl rfl)
        refine (h.made_iff.trans (or_iff_left fun hmade' => hid ?_)).symm
        rw [← Table.key_of_get? hrow]
        exact Option.eq_some_unique hmade'.2 hmade.2
  · rcases h.made_iff.mp hmade' with hdone | hupload
    · intro object hobject target htarget
      obtain ⟨d, hd, hnames⟩ := h.facts f' hf' hnone' hdone object hobject target htarget
      exact ⟨d, hkept d hd, hnames⟩
    · have hid : f'.id = f.id := Option.eq_some_unique hupload.2 hmade.2
      obtain rfl := Table.eq_of_key_eq hf' hmem hid
      intro object hobject
      refine hfacts object ?_
      rw [objectsOf, h.objects]
      exact hobject
  -- the started deletion takes exactly this file's bytes out of the used sum
  · have hbatch : ∃ u ∈ batch, u.Made f.id := ⟨upload, h.sub upload List.mem_cons_self, hmade⟩
    have hcounted : countedOf userId batch m' =
        countedOf userId batch m - usedWeight userId f := by
      rw [countedOf, countedOf, hfiles]
      have hkey : f.id = FileAsset.id { f with deletionStartedAt := some now } := rfl
      refine (Table.sum_set hfile hkey).trans ?_
      dsimp only
      rw [if_pos hbatch, if_pos hbatch]
      have hzero : usedWeight userId { f with deletionStartedAt := some now } = 0 :=
        if_neg fun hcase => Option.some_ne_none now hcase.2.2
      omega
    have hweight : 0 ≤ usedWeight userId f := usedWeight_nonneg
    rw [hused, h.used, hcounted]
    omega

/-- **One step.** Every upload can be cancelled, and the rest is left. -/
theorem Progress.step (h : Progress userId batch now db (upload :: left) m)
    (hrows : ∀ u ∈ batch, u ∈ db.uploads) :
    ∃ m', cancelUpload now m upload = .ok m' ∧ Progress userId batch now db left m' := by
  by_cases hactive : upload.status.isActive = true
  · have hne : upload.status ≠ .succeeded := by
      intro heq
      rw [heq] at hactive
      cases hactive
    have htransition : transitionUpload upload .cancelled now (some "upload_cancelled") =
        .ok (upload.moved .cancelled now (some "upload_cancelled")) := by
      refine transitionUpload_eq_ok.mpr ⟨?_, rfl⟩
      revert hactive
      cases upload.status <;> decide
    refine ⟨_, ?_, h.stop hrows hactive⟩
    rw [cancelUpload, if_neg hne, if_pos hactive, htransition]
    rfl
  · rw [Bool.not_eq_true] at hactive
    by_cases hsucceeded : upload.status = .succeeded
    · rw [cancelUpload, if_pos hsucceeded, succeededAsset, if_pos hsucceeded]
      -- without an asset whose deletion is to begin, nothing happens
      have hskip : (∀ file ∈ upload.fileId.bind m.files.get?, file.deletionStartedAt ≠ none) →
          Progress userId batch now db left m := by
        refine fun hstarted => h.skip hactive fun f hf hnone hmade => ?_
        by_contra hundone
        have hget := h.files f.id
        rw [Table.get?_key hf] at hget
        refine hstarted f ?_ hnone
        rw [hmade.2, Option.bind_some, hget]
        exact congrArg some (if_neg fun hdone => hundone hdone.2)
      cases hasset : upload.fileId.bind m.files.get? with
      | none => exact ⟨m, rfl, hskip (by simp [hasset])⟩
      | some =>
        obtain ⟨fileId, hfileId, hget⟩ := Option.bind_eq_some_iff.mp hasset
        obtain ⟨hfile, rfl⟩ := Table.get?_eq_some_iff.mp hget
        dsimp only
        split_ifs with hnone
        · exact h.begin hactive ⟨hsucceeded, hfileId⟩ hfile hnone
        · exact ⟨m, rfl, hskip (by simpa [hasset] using hnone)⟩
    · refine ⟨m, ?_, h.skip hactive fun f _ _ hmade => absurd hmade.1 hsucceeded⟩
      rw [cancelUpload, if_neg hsucceeded, if_neg (by simp [hactive])]

/-! ### The request -/

theorem cancelUploads_eq : db.cancelUploads userId uploadIds now =
    if (selected userId uploadIds db).length ≠ uploadIds.length then .error uploadNotFound
    else if ∃ u ∈ orderedUploads userId uploadIds db, ∃ file ∈ db.succeededAsset u,
        file.boundAt ≠ none then
      .error boundAttachmentCancelled
    else
      let active := (orderedUploads userId uploadIds db).filter fun u => u.status.isActive
      let released :=
        if active = [] then db
        else db.releaseReservedBytes userId ((active.map FileUpload.declaredSizeBytes).sum : ℕ)
      (orderedUploads userId uploadIds db).foldlM (cancelUpload now) released := rfl

theorem cancelUploads_eq_error (h : ¬Cancellable userId uploadIds db) :
    ∃ error, db.cancelUploads userId uploadIds now = .error error := by
  rw [cancelUploads_eq]
  split_ifs with hlength hbound
  · exact ⟨_, rfl⟩
  · exact ⟨_, rfl⟩
  · exfalso
    obtain ⟨hnodup, hfound⟩ := length_selected_iff.mp (not_not.mp hlength)
    refine h ⟨hnodup, hfound, fun u hu hnamed file hfile => ?_⟩
    by_contra hne
    exact hbound ⟨u, mem_orderedUploads.mpr ⟨hu, hnamed⟩, file, hfile, hne⟩

/-- A named upload after the request: it is at an end, and if it has succeeded it is as before. -/
theorem Cancelled.row (h : Cancelled userId uploadIds db now db') (hu : upload ∈ db'.uploads)
    (hnamed : Named userId uploadIds upload) :
    upload.status.isActive = false ∧ (upload.status = .succeeded → upload ∈ db.uploads) := by
  have hget := h.uploads upload.id
  rw [Table.get?_key hu] at hget
  obtain ⟨u, hrow, heq⟩ := Option.map_eq_some_iff.mp hget.symm
  split_ifs at heq with hstopped
  · have hstatus : upload.status = .cancelled := by rw [← heq, FileUpload.moved_status]
    rw [hstatus]
    exact ⟨rfl, fun hsucceeded => by cases hsucceeded⟩
  · subst heq
    refine ⟨?_, fun _ => Table.mem_of_get? hrow⟩
    by_contra hactive
    exact hstopped ⟨hnamed, by simpa using hactive⟩

/-- The asset of a named upload after the request: it was there, and its deletion has begun. -/
theorem Cancelled.asset (h : Cancelled userId uploadIds db now db') (hu : upload ∈ db'.uploads)
    (hnamed : Named userId uploadIds upload) (hfile : file ∈ db'.succeededAsset upload) :
    file.deletionStartedAt ≠ none ∧
      ∃ before ∈ db.succeededAsset upload, before.boundAt = file.boundAt := by
  by_cases hsucceeded : upload.status = .succeeded
  · have hrow := (h.row hu hnamed).2 hsucceeded
    rw [succeededAsset, if_pos hsucceeded] at hfile ⊢
    obtain ⟨fileId, hfileId, hget⟩ := Option.bind_eq_some_iff.mp hfile
    rw [h.files] at hget
    obtain ⟨f, hf, heq⟩ := Option.map_eq_some_iff.mp hget
    have hbefore : f ∈ upload.fileId.bind db.files.get? :=
      Option.bind_eq_some_iff.mpr ⟨fileId, hfileId, hf⟩
    have hid : f.id = fileId := Table.key_of_get? hf
    split_ifs at heq with hdoomed
    · subst heq
      exact ⟨Option.some_ne_none now, f, hbefore, rfl⟩
    · subst heq
      refine ⟨fun hnone => hdoomed ⟨hnone, upload, hrow, hnamed, hsucceeded, ?_⟩, f, hbefore, rfl⟩
      rw [hid]
      exact hfileId
  · rw [succeededAsset, if_neg hsucceeded] at hfile
    cases hfile

/-- **Repeating** the request changes nothing. -/
theorem Cancelled.again (h : Cancelled userId uploadIds db now db')
    (hcancellable : Cancellable userId uploadIds db) (later : ℕ) :
    db'.cancelUploads userId uploadIds later = .ok db' := by
  -- the second call selects the same uploads, none of which is bound or active
  have hlength : (selected userId uploadIds db').length = uploadIds.length := by
    refine length_selected_iff.mpr ⟨hcancellable.nodup, fun id hid => ?_⟩
    obtain ⟨u, hget, huser⟩ := hcancellable.found id hid
    rw [h.uploads, hget]
    refine ⟨_, rfl, ?_⟩
    dsimp only
    split_ifs
    · rw [FileUpload.moved_userId]
      exact huser
    · exact huser
  have hunbound : ¬∃ u ∈ orderedUploads userId uploadIds db', ∃ file ∈ db'.succeededAsset u,
      file.boundAt ≠ none := by
    rintro ⟨u, hu, file, hfile, hbound⟩
    obtain ⟨hmem, hnamed⟩ := mem_orderedUploads.mp hu
    obtain ⟨-, before, hbefore, heq⟩ := h.asset hmem hnamed hfile
    have hsucceeded : u.status = .succeeded := by
      by_contra hne
      rw [succeededAsset, if_neg hne] at hfile
      cases hfile
    refine hbound (heq ▸ hcancellable.unbound u ?_ hnamed before hbefore)
    exact (h.row hmem hnamed).2 hsucceeded
  have hactive : (orderedUploads userId uploadIds db').filter (fun u =>
    u.status.isActive) = [] := by
    refine List.filter_eq_nil_iff.mpr fun u hu => ?_
    obtain ⟨hmem, hnamed⟩ := mem_orderedUploads.mp hu
    rw [(h.row hmem hnamed).1]
    exact Bool.false_ne_true
  have hfold : ∀ uploads : List FileUpload, (∀ u ∈ uploads, cancelUpload later db' u = .ok db') →
      uploads.foldlM (cancelUpload later) db' = .ok db' := by
    intro uploads
    induction uploads with
    | nil => exact fun _ => rfl
    | cons u uploads ih =>
      intro hall
      rw [List.foldlM_cons, hall u List.mem_cons_self]
      exact ih fun v hv => hall v (List.mem_cons_of_mem _ hv)
  rw [cancelUploads_eq, if_neg (not_not.mpr hlength), if_neg hunbound]
  dsimp only
  rw [if_pos hactive]
  refine hfold _ fun u hu => ?_
  obtain ⟨hmem, hnamed⟩ := mem_orderedUploads.mp hu
  rw [cancelUpload]
  split_ifs with hsucceeded hstopped
  · cases hasset : db'.succeededAsset u with
    | none => rfl
    | some => exact if_neg (h.asset hmem hnamed hasset).1
  · rw [(h.row hmem hnamed).1] at hstopped
    cases hstopped
  · rfl

theorem doomed_iff : Doomed userId uploadIds db file ↔ file.deletionStartedAt = none ∧
    ∃ u ∈ orderedUploads userId uploadIds db, u.Made file.id := by
  refine and_congr_right fun _ => exists_congr fun u => ?_
  rw [mem_orderedUploads, and_assoc]

/-- **The request** in full, when it passes its checks. -/
theorem exists_cancelUploads (h : Cancellable userId uploadIds db)
    (hreserved : 0 ≤ (db.quotas userId).reservedBytes)
    (hused : 0 ≤ (db.quotas userId).usedBytes) :
    ∃ db', db.cancelUploads userId uploadIds now = .ok db' ∧
      Cancelled userId uploadIds db now db' ∧
      (db'.quotas userId).reservedBytes =
        max 0 ((db.quotas userId).reservedBytes - stoppedBytes userId uploadIds db) ∧
      (db'.quotas userId).usedBytes =
        max 0 ((db.quotas userId).usedBytes - countedBytes userId uploadIds db) := by
  let batch := orderedUploads userId uploadIds db
  let active := batch.filter fun u => u.status.isActive
  let released := if active = [] then db
    else db.releaseReservedBytes userId ((active.map FileUpload.declaredSizeBytes).sum : ℕ)
  have hids : batch.map FileUpload.id = uploadIds := map_id_orderedUploads h.found
  have hsum : ((active.map FileUpload.declaredSizeBytes).sum : ℕ) =
      stoppedBytes userId uploadIds db := sum_active_orderedUploads h.nodup h.found
  -- the reservation is released first
  have hframe : released.uploads = db.uploads ∧ released.files = db.files ∧
      released.objects = db.objects ∧
      (released.quotas userId).usedBytes = (db.quotas userId).usedBytes ∧
      (released.quotas userId).reservedBytes =
        max 0 ((db.quotas userId).reservedBytes - stoppedBytes userId uploadIds db) := by
    by_cases hactive : active = []
    · have hreleased : released = db := if_pos hactive
      rw [hreleased]
      rw [hactive] at hsum
      have hzero : stoppedBytes userId uploadIds db = 0 := hsum.symm
      refine ⟨rfl, rfl, rfl, rfl, ?_⟩
      omega
    · have hreleased : released = db.releaseReservedBytes userId
          ((active.map FileUpload.declaredSizeBytes).sum : ℕ) := if_neg hactive
      rw [hreleased, hsum]
      refine ⟨rfl, rfl, rfl, ?_, ?_⟩
      · show (Function.update db.quotas userId _ userId).usedBytes = _
        rw [Function.update_self]
      · show (Function.update db.quotas userId _ userId).reservedBytes = _
        rw [Function.update_self]
  obtain ⟨huploads, hfiles, hobjects, husedBytes, hreservedBytes⟩ := hframe
  have hrows : ∀ u ∈ batch, u ∈ released.uploads := by
    intro u hu
    rw [huploads]
    exact (mem_orderedUploads.mp hu).1
  have hstart : Progress userId batch now released batch released :=
    Progress.start (by rw [hids]; exact h.nodup) (by rw [husedBytes]; exact hused)
  obtain ⟨db', hfold, hend⟩ := Except.foldlM_progress
    (fun u left m (hm : Progress userId batch now released (u :: left) m) => hm.step hrows) hstart
  have hbatch : ∀ {id : ℕ}, (∃ u ∈ batch, u ∉ ([] : List FileUpload) ∧ u.Made id) ↔
      ∃ u ∈ batch, u.Made id :=
    exists_congr fun u => and_congr_right fun _ => and_iff_right List.not_mem_nil
  refine ⟨db', ?_, ⟨fun id => ?_, fun id => ?_, ?_⟩, hend.reserved.trans hreservedBytes, ?_⟩
  · have hunbound : ¬∃ u ∈ batch, ∃ file ∈ db.succeededAsset u, file.boundAt ≠ none := by
      rintro ⟨u, hu, file, hfile, hbound⟩
      obtain ⟨hmem, hnamed⟩ := mem_orderedUploads.mp hu
      exact hbound (h.unbound u hmem hnamed file hfile)
    rw [cancelUploads_eq, if_neg (not_not.mpr (length_selected_iff.mpr ⟨h.nodup, h.found⟩)),
      if_neg hunbound]
    exact hfold
  · rw [hend.uploads, huploads]
    cases hrow : db.uploads.get? id with
    | none => rfl
    | some =>
      refine congrArg some (if_congr (and_congr_left fun _ => ?_) rfl rfl)
      rw [and_iff_left List.not_mem_nil, mem_orderedUploads,
        and_iff_right (Table.mem_of_get? hrow)]
  · rw [hend.files, hfiles]
    cases db.files.get? id with
    | none => rfl
    | some =>
      refine congrArg some (if_congr ?_ rfl rfl)
      rw [hbatch, doomed_iff]
  · intro f hf hdoomed object hobject
    obtain ⟨hnone, hmade⟩ := doomed_iff.mp hdoomed
    refine hend.facts f (hfiles ▸ hf) hnone (hbatch.mpr hmade) object ?_
    rw [objectsOf, hobjects]
    exact hobject
  · have hcounted : countedOf userId batch released = countedBytes userId uploadIds db := by
      rw [countedOf, hfiles, countedBytes]
      refine Table.sum_congr fun f _ => ?_
      by_cases hnone : f.deletionStartedAt = none
      · exact if_congr (doomed_iff.trans (and_iff_right hnone)).symm rfl rfl
      · have hweight : usedWeight userId f = 0 := if_neg fun hcase => hnone hcase.2.2
        rw [hweight, ite_self, ite_self]
    have hzero : countedOf userId batch db' = 0 := by
      refine Table.sum_eq_zero fun f hf => ?_
      split_ifs with hmade
      · refine if_neg fun hcase => ?_
        have hget := hend.files f.id
        rw [Table.get?_key hf] at hget
        obtain ⟨before, -, heq⟩ := Option.map_eq_some_iff.mp hget.symm
        split_ifs at heq with hdone
        · rw [← heq] at hcase
          exact Option.some_ne_none now hcase.2.2
        · subst heq
          exact hdone ⟨hcase.2.2, hbatch.mpr hmade⟩
      · rfl
    rw [hend.used, husedBytes, hcounted, hzero]
    omega

/-! ### What the quota counts -/

theorem ite_size_eq_iff {p : Prop} [Decidable p] {size : ℕ} :
    (if p then (size : ℤ) else 0) = size ↔ (size ≠ 0 → p) := by
  by_cases hp : p
  · rw [if_pos hp]
    exact iff_of_true rfl fun _ => hp
  · rw [if_neg hp]
    constructor
    · exact fun hzero hsize => absurd (Int.ofNat_eq_zero.mp hzero.symm) hsize
    · exact fun hsize => by_contra fun hne => hp (hsize fun hzero => hne (by rw [hzero]; rfl))

theorem heldBytes_le : heldBytes userId uploadIds db ≤ stoppedBytes userId uploadIds db := by
  refine Table.sum_le_sum fun u _ => ?_
  split_ifs
  · unfold reservedWeight
    split_ifs <;> omega
  · exact le_rfl

theorem countedBytes_le : countedBytes userId uploadIds db ≤ doomedBytes userId uploadIds db := by
  refine Table.sum_le_sum fun f _ => ?_
  split_ifs
  · unfold usedWeight
    split_ifs <;> omega
  · exact le_rfl

/-- All that is released was reserved exactly if no upload but those of attachments is cancelled. -/
theorem heldBytes_eq : heldBytes userId uploadIds db = stoppedBytes userId uploadIds db ↔
    ∀ upload ∈ db.uploads, Stopped userId uploadIds upload → upload.declaredSizeBytes ≠ 0 →
      upload.purpose = .messageAttachment := by
  refine (Table.sum_eq_sum_iff fun u _ => ?_).trans (forall₂_congr fun u _ => ?_)
  · split_ifs
    · unfold reservedWeight
      split_ifs <;> omega
    · exact le_rfl
  · by_cases hstopped : Stopped userId uploadIds u
    · rw [if_pos hstopped, if_pos hstopped, imp_iff_right hstopped]
      exact ite_size_eq_iff.trans (imp_congr_right fun _ =>
        ⟨fun hholds => hholds.2.1, fun hpurpose => ⟨hstopped.1.2, hpurpose, hstopped.2⟩⟩)
    · rw [if_neg hstopped, if_neg hstopped]
      exact iff_of_true rfl fun hcase => absurd hcase hstopped

/-- All assets count exactly if no asset but attachments of the user is deleted. -/
theorem countedBytes_eq : countedBytes userId uploadIds db = doomedBytes userId uploadIds db ↔
    ∀ file ∈ db.files, Doomed userId uploadIds db file → file.sizeBytes ≠ 0 →
      file.userId = userId ∧ file.purpose = .messageAttachment := by
  refine (Table.sum_eq_sum_iff fun f _ => ?_).trans (forall₂_congr fun f _ => ?_)
  · split_ifs
    · unfold usedWeight
      split_ifs <;> omega
    · exact le_rfl
  · by_cases hdoomed : Doomed userId uploadIds db f
    · rw [if_pos hdoomed, if_pos hdoomed, imp_iff_right hdoomed]
      exact ite_size_eq_iff.trans (imp_congr_right fun _ =>
        ⟨fun hcounts => ⟨hcounts.1, hcounts.2.1⟩, fun hcase => ⟨hcase.1, hcase.2, hdoomed.1⟩⟩)
    · rw [if_neg hdoomed, if_neg hdoomed]
      exact iff_of_true rfl fun hcase => absurd hcase hdoomed

theorem attachmentsOnly_iff : AttachmentsOnly userId uploadIds db ↔
    heldBytes userId uploadIds db = stoppedBytes userId uploadIds db ∧
      countedBytes userId uploadIds db = doomedBytes userId uploadIds db :=
  ⟨fun h => ⟨heldBytes_eq.mpr h.uploads, countedBytes_eq.mpr h.assets⟩,
    fun h => ⟨heldBytes_eq.mp h.1, countedBytes_eq.mp h.2⟩⟩

/-- **All or nothing.** A request to cancel a draft raises, and then the transaction is rolled back,
or it cancels every active upload that it names, begins the deletion of every asset, releases
exactly their bytes, which are those that were reserved and used for them, and changes nothing when
it is repeated. This is so if and only if, whenever the request passes its checks, it cancels
nothing but attachments, and the quota holds their bytes. -/
theorem cancelUploads_allOrNothing_iff (userId : ℕ) (uploadIds : List ℕ) (now : ℕ) (db : FileDb)
    (hreserved : 0 ≤ (db.quotas userId).reservedBytes)
    (hused : 0 ≤ (db.quotas userId).usedBytes) :
    ((∃ error, db.cancelUploads userId uploadIds now = .error error) ∨
      ∃ db', db.cancelUploads userId uploadIds now = .ok db' ∧
        Cancelled userId uploadIds db now db' ∧ QuotaReleased userId uploadIds db db' ∧
        ∀ later, db'.cancelUploads userId uploadIds later = .ok db') ↔
      (Cancellable userId uploadIds db → Covered userId uploadIds db) := by
  have hheld : heldBytes userId uploadIds db ≤ stoppedBytes userId uploadIds db := heldBytes_le
  have hcounted : countedBytes userId uploadIds db ≤ doomedBytes userId uploadIds db :=
    countedBytes_le
  constructor
  · rintro hclaim hcancellable
    obtain ⟨db', hok, -, hreservedBytes, husedBytes⟩ :=
      @exists_cancelUploads userId uploadIds db now hcancellable hreserved hused
    rcases hclaim with ⟨error, herror⟩ | ⟨other, hother, -, hquota, -⟩
    · cases hok.symm.trans herror
    · obtain rfl := Except.ok.inj (hok.symm.trans hother)
      have hreservedEq := hreservedBytes.symm.trans hquota.reserved
      have hreservationsEq := hreservedBytes.symm.trans hquota.reservations
      have husedEq := husedBytes.symm.trans hquota.used
      exact ⟨attachmentsOnly_iff.mpr ⟨by omega, by omega⟩, by omega, by omega⟩
  · intro hcovered
    by_cases hcancellable : Cancellable userId uploadIds db
    · obtain ⟨honly, hreservedLe, husedLe⟩ := hcovered hcancellable
      obtain ⟨hheldEq, hcountedEq⟩ := attachmentsOnly_iff.mp honly
      obtain ⟨db', hok, hcancelled, hreservedBytes, husedBytes⟩ :=
        @exists_cancelUploads userId uploadIds db now hcancellable hreserved hused
      refine .inr ⟨db', hok, hcancelled, ⟨?_, ?_, ?_, ?_⟩, hcancelled.again hcancellable⟩ <;> omega
    · exact .inl (cancelUploads_eq_error hcancellable)

/-- A draft of one attachment. -/
theorem cancelUploads_allOrNothing_draft :
    ∃ db, FileDb.empty.createUpload .default 1 "notes.txt" .upload "text/plain".toList 60 false 0 =
        .ok db ∧
      (((∃ error, db.cancelUploads 1 [0] 5 = .error error) ∨
        ∃ db', db.cancelUploads 1 [0] 5 = .ok db' ∧ Cancelled 1 [0] db 5 db' ∧
          QuotaReleased 1 [0] db db' ∧ ∀ later, db'.cancelUploads 1 [0] later = .ok db') ↔
        (Cancellable 1 [0] db → Covered 1 [0] db)) :=
  ⟨_, rfl, cancelUploads_allOrNothing_iff 1 [0] 5 _ (by decide) (by decide)⟩

/-- An avatar upload of 60 bytes is cancelled while an attachment of 100 bytes is on its way: of the
100 bytes that are reserved for the attachment, 40 are left. -/
theorem not_cancelUploads_avatar :
    ∃ draft db, FileDb.empty.createUpload .default 1 "notes.txt" .upload "text/plain".toList 100
        false 0 = .ok draft ∧
      draft.createAvatarUpload .default 1 "avatar.webp" "image/webp".toList 60 0 = .ok db ∧
      (∃ db', db.cancelUploads 1 [1] 5 = .ok db' ∧ (db'.quotas 1).reservedBytes = 40 ∧
        db'.reservedSum 1 = 100) ∧
      ¬((∃ error, db.cancelUploads 1 [1] 5 = .error error) ∨
        ∃ db', db.cancelUploads 1 [1] 5 = .ok db' ∧ Cancelled 1 [1] db 5 db' ∧
          QuotaReleased 1 [1] db db' ∧ ∀ later, db'.cancelUploads 1 [1] later = .ok db') := by
  refine ⟨_, _, rfl, rfl, ⟨_, rfl, by decide, by decide⟩, ?_⟩
  rintro (⟨error, herror⟩ | ⟨db', hok, -, hquota, -⟩)
  · cases herror
  · have hreleased := hquota.reservations
    cases hok
    exact absurd hreleased (by decide)

end FileDb

end IChat.Files
