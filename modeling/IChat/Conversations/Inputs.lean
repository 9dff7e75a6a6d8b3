import IChat.Conversations.ImageContext
import IChat.General.Lists
import IChat.Runs.History

/-!
# The input of a message

What `prepare_attachment_plan` accepts, and the blocks it makes of it. A plan's blocks are the text
of the message, if it has one, and a block for each asset, in the order of the request
(`PlannedInput`). Whether the blocks of images are image blocks or notices depends on the model
alone (`IsAttachmentBlock`): a model that takes images never gets a notice about one, and one that
does not never gets an image block.
-/

namespace IChat.Conversations

open Files

/-- The file that an attachment's block is about. -/
def attachmentFileId : ContentBlock → Option String
  | .document fileId .. | .image fileId .. | .attachmentNotice fileId .. => some fileId
  | _ => none

/-- What the block of an attachment can be, for a model that does or does not take images. -/
structure IsAttachmentBlock (supportsImageInput : Option Bool) (file : FileAsset)
    (block : ContentBlock) : Prop where
  fileId : attachmentFileId block = some file.publicId
  portable : block.isPortable = true
  valid : block.Valid
  legacy : supportsImageInput = some true → legacyFileId block = none
  vision : supportsImageInput ≠ some true → visionFileId block = none

section blocks

variable {request : AttachmentRequest} {preview : Option FileObject} {file : FileAsset}
  {block : ContentBlock}

theorem isAttachmentBlock_noticeBlock {supportsImageInput : Option Bool}
    (h : supportsImageInput = some true → isImageType file.mediaType = false) :
    IsAttachmentBlock supportsImageInput file file.noticeBlock where
  fileId := rfl
  portable := rfl
  valid := trivial
  legacy hsupported := by simp [FileAsset.noticeBlock, legacyFileId, h hsupported]
  vision _ := rfl

theorem imageBlock_eq_ok (h : imageBlock file preview = .ok block) :
    ∃ mediaType sha256 width height version, 0 < width ∧ 0 < height ∧
      block = .image file.publicId file.originalFilename mediaType sha256 width height version
        file.warnings := by
  simp only [imageBlock] at h
  split at h
  · next preview sha256 width height version hwidth hheight _ _ =>
    split_ifs at h
    cases h
    have hpos {field : String} {n : ℤ}
        (hn : positiveInt (file.summaryMetadata.getD []) field = some n) : 0 < n := by
      unfold positiveInt at hn
      split at hn
      · split_ifs at hn with hlt
        cases hn
        exact hlt
      · cases hn
    exact ⟨_, _, width, height, version, hpos hwidth, hpos hheight, rfl⟩
  · cases h

/-- Every branch of `attachmentBlock` keeps to it. -/
theorem isAttachmentBlock_of_eq_ok (h : attachmentBlock request preview file = .ok block) :
    IsAttachmentBlock request.supportsImageInput file block := by
  unfold attachmentBlock at h
  split at h
  · split at h
    · split_ifs at h
      cases h
      refine ⟨rfl, rfl, ?_, fun _ => rfl, fun _ => rfl⟩
      cases file.origin
      · exact .inl rfl
      · exact .inr rfl
    · cases h
  · split_ifs at h with htype hlegacy hsupported
    · obtain ⟨mediaType, sha256, width, height, version, hwidth, hheight, rfl⟩ := imageBlock_eq_ok h
      exact ⟨rfl, rfl, ⟨hwidth, hheight⟩, fun _ => rfl, fun hnot => absurd hsupported hnot⟩
    · cases h
      exact isAttachmentBlock_noticeBlock fun hsome => absurd hsome hsupported
  · split_ifs at h with himage
    cases h
    refine isAttachmentBlock_noticeBlock fun hsupported => ?_
    simpa [hsupported] using himage

end blocks

/-! ### Planned inputs -/

/-- The text of a message's input. -/
def textPart (content : String) : List ContentBlock :=
  if content = "" then [] else [.text content]

/-- The blocks are the input of a message with a text and assets. -/
structure PlannedInput (supportsImageInput : Option Bool) (content : String)
    (files : List FileAsset) (blocks : List ContentBlock) : Prop where
  blocks_eq : ∃ attached, blocks = textPart content ++ attached ∧
    List.Forall₂ (IsAttachmentBlock supportsImageInput) files attached
  ne_nil : blocks ≠ []

namespace PlannedInput

variable {supportsImageInput : Option Bool} {content : String} {files : List FileAsset}
  {blocks : List ContentBlock}

/-- A block of an input is its text or that of an asset. -/
theorem text_or_attachment (h : PlannedInput supportsImageInput content files blocks)
    {block : ContentBlock} (hblock : block ∈ blocks) :
    block = .text content ∨ ∃ file ∈ files, IsAttachmentBlock supportsImageInput file block := by
  obtain ⟨attached, rfl, hattached⟩ := h.blocks_eq
  rcases List.mem_append.mp hblock with htext | hblock
  · unfold textPart at htext
    split_ifs at htext
    · cases htext
    · exact .inl (List.mem_singleton.mp htext)
  · exact .inr (hattached.exists_left hblock)

/-- What holds of a text block and of every attachment's block holds of every block. -/
theorem forall_mem (h : PlannedInput supportsImageInput content files blocks)
    {P : ContentBlock → Prop} (htext : P (.text content))
    (hattached : ∀ file block, IsAttachmentBlock supportsImageInput file block → P block) :
    ∀ block ∈ blocks, P block := by
  intro block hblock
  rcases h.text_or_attachment hblock with rfl | ⟨file, -, his⟩
  · exact htext
  · exact hattached file block his

theorem portable (h : PlannedInput supportsImageInput content files blocks) :
    ∀ block ∈ blocks, block.isPortable = true :=
  h.forall_mem rfl fun _ _ his => his.portable

theorem valid (h : PlannedInput supportsImageInput content files blocks) :
    ∀ block ∈ blocks, block.Valid :=
  h.forall_mem trivial fun _ _ his => his.valid

/-- No notice about an image is given to a model that takes images. -/
theorem legacy (h : PlannedInput (some true) content files blocks) :
    ∀ block ∈ blocks, legacyFileId block = none :=
  h.forall_mem rfl fun _ _ his => his.legacy rfl

/-- No image is given to a model that is not known to take images. -/
theorem vision (h : PlannedInput supportsImageInput content files blocks)
    (hnot : supportsImageInput ≠ some true) : ∀ block ∈ blocks, visionFileId block = none :=
  h.forall_mem rfl fun _ _ his => his.vision hnot

end PlannedInput

/-! ### What a plan is -/

/-- A plan that `prepare_attachment_plan` has accepted. -/
structure Accepted (db : FileDb) (loaded : List FileAsset) (request : AttachmentRequest)
    (plan : AttachmentPlan) : Prop where
  ids : plan.files.map FileAsset.id = request.attachmentIds
  nodup : request.attachmentIds.Nodup
  held : ∀ file ∈ plan.files, db.sessionFile loaded file.id = some file
  attachable : ∀ file ∈ plan.files, Attachable request file
  input : PlannedInput request.supportsImageInput request.content plan.files plan.blocks

theorem sessionFile_id {db : FileDb} {loaded : List FileAsset} {fileId : ℕ} {file : FileAsset}
    (h : db.sessionFile loaded fileId = some file) : file.id = fileId := by
  obtain ⟨row, hrow, rfl⟩ := Option.map_eq_some_iff.mp h
  cases hfind : loaded.find? fun file => file.id = fileId with
  | none => exact Table.key_of_get? hrow
  | some => simpa using List.find?_some hfind

private theorem map_id_of_forall₂_sessionFile {db : FileDb} {loaded : List FileAsset}
    {ids : List ℕ} {files : List FileAsset}
    (h : List.Forall₂ (fun id file => db.sessionFile loaded id = some file) ids files) :
    files.map FileAsset.id = ids := by
  induction h with
  | nil => rfl
  | cons hfirst _ ih => rw [List.map_cons, ih, sessionFile_id hfirst]

/-- The blocks of a plan are not empty: a message without text has an asset that can be read. -/
private theorem blocks_ne_nil {content : String} {blocks : List ContentBlock}
    (h : ¬(Text.strip content.toList = [] ∧ ∀ block ∈ blocks, isReadable block = false))
    (htext : content ≠ "" → .text content ∈ blocks) : blocks ≠ [] := by
  rintro rfl
  by_cases hempty : content = ""
  · refine h ⟨?_, by simp⟩
    rw [hempty]
    rfl
  · cases htext hempty

theorem accepted_of_prepareAttachmentPlan {s : Settings} {db : FileDb} {loaded : List FileAsset}
    {request : AttachmentRequest} {plan : AttachmentPlan}
    (h : db.prepareAttachmentPlan s loaded request = .ok plan) :
    Accepted db loaded request plan := by
  unfold FileDb.prepareAttachmentPlan at h
  obtain ⟨-, h⟩ := ite_error_eq_ok_iff.mp h
  obtain ⟨hnodup, h⟩ := ite_error_eq_ok_iff.mp h
  split at h
  · cases h
  · next files hfiles =>
    obtain ⟨hattachable, h⟩ := ite_error_eq_ok_iff.mp h
    obtain ⟨-, h⟩ := ite_error_eq_ok_iff.mp h
    obtain ⟨attached, hattached, h⟩ := bind_eq_ok_iff.mp h
    obtain ⟨hempty, h⟩ := ite_error_eq_ok_iff.mp h
    obtain ⟨-, h⟩ := ite_error_eq_ok_iff.mp h
    cases h
    have hsession := Option.forall₂_of_mapM_eq_some hfiles
    refine ⟨?_, not_not.mp hnodup, fun file hfile => ?_, not_not.mp hattachable,
      ⟨attached, rfl, ?_⟩, blocks_ne_nil hempty fun htext => ?_⟩
    · exact map_id_of_forall₂_sessionFile hsession
    · obtain ⟨fileId, -, hheld⟩ := hsession.exists_left hfile
      rw [sessionFile_id hheld]
      exact hheld
    · exact (Except.forall₂_of_mapM_eq_ok hattached).imp fun _ _ => isAttachmentBlock_of_eq_ok
    · have htextPart : textPart request.content = [.text request.content] := if_neg htext
      change _ ∈ textPart request.content ++ attached
      rw [htextPart]
      exact List.mem_cons_self

end IChat.Conversations
