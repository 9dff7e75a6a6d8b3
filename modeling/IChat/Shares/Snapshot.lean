import Mathlib.Data.List.Nodup
import Mathlib.Data.List.Enum
import Mathlib.Data.Int.Notation
import IChat.General.Json
import IChat.General.Lists
import IChat.General.Uuid

/-!
# Share snapshots

The dictionary that `create_share` freezes, from the messages of a conversation and the attachments
that hang on them, and the scan that later resolves an attachment ref in it.

* `buildSnapshot`, `snapshotReplyQuote` and `snapshotAttachments` are the functions of the source;
  a dictionary of lists that is only read by `get(key, [])` is a function of the key.
* `snapshotAttachmentFileId` scans the stored JSON. Where the value has another shape than the scan
  expects, the source raises; this is `none`.

`snapshot_refs_nodup`, `snapshotAttachmentFileId_ref`, `snapshotAttachmentFileId_of_notMem` and
`snapshot_replyQuote_earlier` are what holds of every snapshot. They rest on the keys of the
tables: the ids of messages are distinct, and so are the positions of the attachments of one
message.
-/

namespace IChat.Shares

inductive Role
  | user | assistant
  deriving DecidableEq, Repr

def Role.value : Role → String
  | .user => "user"
  | .assistant => "assistant"

/-- The columns of `messages` that a snapshot reads. -/
structure Message where
  id : ℕ
  conversationId : ℕ
  position : ℕ
  role : Role
  content : String
  reasoning : Option String
  metadata : Option Dict
  replyQuoteSourceMessageId : Option ℕ
  replyQuoteExcerpt : Option String
  replyQuoteSourceAnchorVersion : Option ℤ
  replyQuoteSourceAnchorStart : Option ℤ
  replyQuoteSourceAnchorEnd : Option ℤ
  archivedAt : Option ℕ

inductive FileOrigin
  | upload | paste
  deriving DecidableEq, Repr

def FileOrigin.value : FileOrigin → String
  | .upload => "upload"
  | .paste => "paste"

/-- A row of `message_attachments`. -/
structure MessageAttachment where
  messageId : ℕ
  fileId : Option ℕ
  position : ℕ
  name : String
  mediaType : String
  sizeBytes : ℕ
  warnings : List String
  origin : FileOrigin
  deriving DecidableEq

inductive FileModelInputKind
  | document | image
  deriving DecidableEq, Repr

/-- The columns of `files` that a snapshot reads. -/
structure FileAsset where
  id : ℕ
  publicId : Uuid
  modelInputKind : Option FileModelInputKind
  summaryMetadata : Option Dict

structure MessageAttachmentResponse where
  id : Uuid
  name : String
  mediaType : String
  sizeBytes : ℕ
  category : String
  modelInputKind : Option String
  warnings : List String
  previewAvailable : Bool
  stats : Dict
  position : ℕ
  origin : String

/-! ### The attachments of messages -/

/-- `OFFICE_MEDIA_TYPES`. -/
def officeMediaTypes : List String :=
  ["application/vnd.openxmlformats-officedocument.wordprocessingml.document",
    "application/vnd.openxmlformats-officedocument.presentationml.presentation",
    "application/vnd.openxmlformats-officedocument.spreadsheetml.sheet"]

/-- `file_category_values`, which does not look at the file name. -/
def fileCategoryValues (mediaType : String) : String :=
  if "image/".toList <+: mediaType.toList then "image"
  else if mediaType = "application/pdf" then "pdf"
  else if mediaType ∈ officeMediaTypes then "office"
  else "text"

/-- `_model_input_kind_value`. -/
def modelInputKindValue : Option FileModelInputKind → Option String
  | some .document => some "document"
  | some .image => some "image"
  | none => none

/-- `isinstance(value, int | str)`. -/
def isStat : Json → Bool
  | .int _ | .bool _ | .str _ => true
  | _ => false

/-- The response of `attachment_responses` for a row of its join. -/
def attachmentResponse (hasPreview : ℕ → Bool) (row : MessageAttachment × Option FileAsset) :
    MessageAttachmentResponse where
  id := row.2.elim Uuid.zero (·.publicId)
  name := row.1.name
  mediaType := row.1.mediaType
  sizeBytes := row.1.sizeBytes
  category := fileCategoryValues row.1.mediaType
  modelInputKind := row.2.bind fun file => modelInputKindValue file.modelInputKind
  warnings := row.1.warnings
  previewAvailable := row.2.any fun file => hasPreview file.id
  stats := row.2.elim [] fun file => (file.summaryMetadata.getD []).filter fun field =>
    isStat field.2
  position := row.1.position
  origin := row.1.origin.value

/-- `attachment_responses`, for the rows of its join in the order of their positions. -/
def attachmentResponses (hasPreview : ℕ → Bool) (rows : List (MessageAttachment × Option FileAsset))
    (messageId : ℕ) : List MessageAttachmentResponse :=
  (rows.filter (·.1.messageId = messageId)).map (attachmentResponse hasPreview)

/-! ### The snapshot -/

/-- The keys of the statistics that a snapshot keeps. -/
def snapshotStatKeys (origin : String) : List String :=
  ["width", "height"] ++ if origin = "paste" then ["line_count", "first_line"] else []

/-- The handle of an attachment in a snapshot. -/
def attachmentRef (messageIndex position : ℕ) : String := s!"{messageIndex}-{position}"

def optionStr : Option String → Json
  | some s => .str s
  | none => .null

/-- The entry of `_snapshot_attachments` for an attachment. -/
def snapshotAttachment (messageIndex : ℕ) (attachment : MessageAttachmentResponse) : Dict :=
  let hasAsset := attachment.id ≠ Uuid.zero
  [("name", .str attachment.name),
    ("media_type", .str attachment.mediaType),
    ("size_bytes", .int attachment.sizeBytes),
    ("category", .str attachment.category),
    ("warnings", .arr (attachment.warnings.map .str)),
    ("position", .int attachment.position),
    ("model_input_kind", optionStr attachment.modelInputKind),
    ("preview_available", .bool (attachment.previewAvailable && hasAsset)),
    ("stats", .obj (attachment.stats.filter fun field =>
      field.1 ∈ snapshotStatKeys attachment.origin))] ++
  (if attachment.origin = "paste" then [("origin", .str "paste")] else []) ++
  if hasAsset then
    [("ref", .str (attachmentRef messageIndex attachment.position)),
      ("file_id", .str attachment.id.toStr)]
  else []

/-- `_snapshot_attachments`: what is appended to the list of a message id. -/
def snapshotAttachments (messages : List Message) (responses : ℕ → List MessageAttachmentResponse)
    (messageId : ℕ) : List Dict :=
  messages.zipIdx.flatMap fun (message, index) =>
    if message.id = messageId then (responses message.id).map (snapshotAttachment index) else []

/-- The dictionary `message_indexes`, in which a later message overrides. -/
def messageIndex (messages : List Message) (id : ℕ) : Option ℕ :=
  (messages.zipIdx.reverse.find? fun (message, _) => message.id = id).map (·.2)

/-- The index of the quoted message, if it is that of an earlier assistant. -/
def replyQuoteSourceIndex (messages : List Message) (message : Message) (index : ℕ) : Option ℕ :=
  match message.replyQuoteSourceMessageId.bind (messageIndex messages) with
  | none => none
  | some sourceIndex =>
    if index ≤ sourceIndex ∨ messages[sourceIndex]?.all (·.role ≠ .assistant) then none
    else some sourceIndex

def sourceAnchor (message : Message) : Json :=
  match message.replyQuoteSourceAnchorVersion, message.replyQuoteSourceAnchorStart,
    message.replyQuoteSourceAnchorEnd with
  | some 1, some start, some stop =>
    if 0 ≤ start ∧ start < stop then
      .obj [("version", .int 1), ("start", .int start), ("end", .int stop)]
    else .null
  | _, _, _ => .null

/-- `_snapshot_reply_quote`. -/
def snapshotReplyQuote (messages : List Message) (message : Message) (index : ℕ) : Json :=
  match message.replyQuoteExcerpt with
  | none => .null
  | some excerpt =>
    .obj [("excerpt", .str excerpt),
      ("source_message_index",
        match replyQuoteSourceIndex messages message index with
        | some sourceIndex => .int sourceIndex
        | none => .null),
      ("source_anchor", sourceAnchor message)]

/-- The entry of `_build_snapshot` for a message. -/
def snapshotMessage (messages : List Message) (attachments : ℕ → List Dict) (message : Message)
    (index : ℕ) : Dict :=
  [("role", .str message.role.value),
    ("content", .str message.content),
    ("reasoning", optionStr message.reasoning),
    ("sources", (Dict.get? (message.metadata.getD []) "sources").getD (.arr [])),
    ("attachments", .arr ((attachments message.id).map .obj)),
    ("reply_quote", snapshotReplyQuote messages message index)]

/-- `_build_snapshot`. -/
def buildSnapshot (title : Option String) (messages : List Message) (attachments : ℕ → List Dict) :
    Dict :=
  [("title", optionStr title),
    ("messages", .arr (messages.zipIdx.map fun (message, index) =>
      .obj (snapshotMessage messages attachments message index)))]

/-! ### The scan -/

/-- The file of an entry with the ref asked for. -/
def attachmentFileId (attachment : Dict) : Option Uuid :=
  match Dict.get? attachment "file_id" with
  | none => none
  | some raw => if raw.truthy then Uuid.parse? raw.toStr else none

/-- The inner loop of `_snapshot_attachment_file_id`: the answer, if it returns from it. -/
def scanAttachments (ref : String) : List Json → Option (Option (Option Uuid))
  | [] => some none
  | .obj attachment :: rest =>
    if Dict.get? attachment "ref" = some (.str ref) then some (some (attachmentFileId attachment))
    else scanAttachments ref rest
  | _ :: _ => none

/-- The value of `message.get("attachments", []) or []`, as a list. -/
def attachmentList (message : Dict) : Option (List Json) :=
  match Dict.get? message "attachments" with
  | none => some []
  | some value => if value.truthy then value.arr? else some []

/-- The outer loop. -/
def scanMessages (ref : String) : List Json → Option (Option Uuid)
  | [] => some none
  | .obj message :: rest =>
    match attachmentList message with
    | none => none
    | some attachments =>
      match scanAttachments ref attachments with
      | none => none
      | some (some answer) => some answer
      | some none => scanMessages ref rest
  | _ :: _ => none

/-- `_snapshot_attachment_file_id`. -/
def snapshotAttachmentFileId (snapshot : Dict) (ref : String) : Option (Option Uuid) :=
  match Dict.get? snapshot "messages" with
  | none => some none
  | some messages => messages.arr?.bind (scanMessages ref)

/-- The dictionaries in a list under a key. -/
def dictsAt (d : Dict) (key : String) : List Dict :=
  (((Dict.get? d key).bind Json.arr?).getD []).filterMap Json.obj?

/-- The entries of the messages in a snapshot. -/
def snapshotMessages (snapshot : Dict) : List Dict := dictsAt snapshot "messages"

/-- The entries of the attachments in a snapshot. -/
def snapshotEntries (snapshot : Dict) : List Dict :=
  (snapshotMessages snapshot).flatMap fun message => dictsAt message "attachments"

/-- The refs in a snapshot. -/
def snapshotRefs (snapshot : Dict) : List Json :=
  (snapshotEntries snapshot).filterMap (Dict.get? · "ref")

/-! ### What a snapshot holds -/

section built

variable {title : Option String} {messages : List Message} {attachments : ℕ → List Dict}
  {responses : ℕ → List MessageAttachmentResponse} {ref : String}

theorem get?_ref_snapshotAttachment (index : ℕ) (attachment : MessageAttachmentResponse) :
    Dict.get? (snapshotAttachment index attachment) "ref" =
      if attachment.id = Uuid.zero then none
      else some (.str (attachmentRef index attachment.position)) := by
  by_cases hasset : attachment.id = Uuid.zero <;> by_cases hpaste : attachment.origin = "paste" <;>
    simp [snapshotAttachment, Dict.get?_cons, hasset, hpaste]

theorem get?_fileId_snapshotAttachment (index : ℕ) (attachment : MessageAttachmentResponse) :
    Dict.get? (snapshotAttachment index attachment) "file_id" =
      if attachment.id = Uuid.zero then none else some (.str attachment.id.toStr) := by
  by_cases hasset : attachment.id = Uuid.zero <;> by_cases hpaste : attachment.origin = "paste" <;>
    simp [snapshotAttachment, Dict.get?_cons, hasset, hpaste]

/-- The file of an entry is the file of the attachment it was made for. -/
theorem attachmentFileId_snapshotAttachment (index : ℕ) {attachment : MessageAttachmentResponse}
    (hasset : attachment.id ≠ Uuid.zero) :
    attachmentFileId (snapshotAttachment index attachment) = some attachment.id := by
  have htext : attachment.id.toStr ≠ "" := by
    intro h
    have hempty : Uuid.parse? "" = none := by decide
    have hread := Uuid.parse?_toStr attachment.id
    rw [h, hempty] at hread
    cases hread
  simp [attachmentFileId, get?_fileId_snapshotAttachment, hasset, Json.truthy, htext, Json.toStr,
    Uuid.parse?_toStr]

theorem get?_attachments_snapshotMessage (message : Message) (index : ℕ) :
    Dict.get? (snapshotMessage messages attachments message index) "attachments" =
      some (.arr ((attachments message.id).map .obj)) := by
  simp [snapshotMessage, Dict.get?_cons]

theorem get?_messages_buildSnapshot :
    Dict.get? (buildSnapshot title messages attachments) "messages" =
      some (.arr (messages.zipIdx.map fun (message, index) =>
        .obj (snapshotMessage messages attachments message index))) := by
  simp [buildSnapshot, Dict.get?_cons]

theorem filterMap_obj?_map {α : Type} (f : α → Dict) (items : List α) :
    (items.map fun item => Json.obj (f item)).filterMap Json.obj? = items.map f := by
  induction items with
  | nil => rfl
  | cons item items ih => simp [ih]

theorem snapshotMessages_buildSnapshot :
    snapshotMessages (buildSnapshot title messages attachments) =
      messages.zipIdx.map fun pair => snapshotMessage messages attachments pair.1 pair.2 := by
  rw [snapshotMessages, dictsAt, get?_messages_buildSnapshot]
  exact filterMap_obj?_map
    (fun pair : Message × ℕ => snapshotMessage messages attachments pair.1 pair.2) messages.zipIdx

theorem snapshotEntries_buildSnapshot :
    snapshotEntries (buildSnapshot title messages attachments) =
      messages.zipIdx.flatMap fun pair => attachments pair.1.id := by
  rw [snapshotEntries, snapshotMessages_buildSnapshot, List.flatMap_map]
  refine List.flatMap_congr fun pair _ => ?_
  rw [dictsAt, get?_attachments_snapshotMessage]
  exact (filterMap_obj?_map id _).trans (List.map_id _)

/-- Where the ids of messages are distinct, the entries of a message are those of its responses. -/
theorem snapshotAttachments_eq (hids : (messages.map (·.id)).Nodup) {message : Message} {index : ℕ}
    (hmem : (message, index) ∈ messages.zipIdx) :
    snapshotAttachments messages responses message.id =
      (responses message.id).map (snapshotAttachment index) := by
  have hkeys : (messages.zipIdx.map fun pair => pair.1.id) = messages.map (·.id) := by
    have hfst : (messages.zipIdx.map Prod.fst).map (·.id) = messages.map (·.id) := by
      rw [List.zipIdx_map_fst]
    rwa [List.map_map] at hfst
  exact List.flatMap_ite_key_eq (hkeys ▸ hids) hmem
    fun pair => (responses pair.1.id).map (snapshotAttachment pair.2)

/-- The entries of a snapshot, message by message. -/
theorem snapshotEntries_eq (hids : (messages.map (·.id)).Nodup) :
    snapshotEntries (buildSnapshot title messages (snapshotAttachments messages responses)) =
      messages.zipIdx.flatMap fun pair =>
        (responses pair.1.id).map (snapshotAttachment pair.2) := by
  rw [snapshotEntries_buildSnapshot]
  exact List.flatMap_congr fun pair hpair => snapshotAttachments_eq hids hpair

/-- Refs of different places are different. -/
theorem attachmentRef_inj {i j p q : ℕ} (h : attachmentRef i p = attachmentRef j q) :
    i = j ∧ p = q := by
  have htext : ∀ n : ℕ, '-' ∉ Nat.toDigits 10 n := by
    intro n hmem
    exact absurd (Nat.isDigit_of_mem_toDigits (by decide) (by decide) hmem) (by decide)
  have hdigits : ∀ m n : ℕ, Nat.toDigits 10 m = Nat.toDigits 10 n → m = n := by
    intro m n heq
    rw [← @Nat.ofDigitChars_ten_toDigits m, heq, Nat.ofDigitChars_ten_toDigits]
  have hchars : ∀ i p : ℕ, (attachmentRef i p).toList =
      Nat.toDigits 10 i ++ '-' :: Nat.toDigits 10 p := by
    intro i p
    have hhyphen : (toString "-").toList = ['-'] := rfl
    simp [attachmentRef, hhyphen]
  have hlist := congrArg String.toList h
  rw [hchars, hchars, List.append_cons_inj_of_notMem (htext i) (htext p)] at hlist
  obtain ⟨hindex, -, hposition⟩ := hlist
  exact ⟨hdigits i j hindex, hdigits p q hposition⟩

/-- An entry of a snapshot was made for an attachment of one of its messages. -/
theorem mem_snapshotEntries (hids : (messages.map (·.id)).Nodup) {entry : Dict} :
    entry ∈ snapshotEntries (buildSnapshot title messages
      (snapshotAttachments messages responses)) ↔
      ∃ message index attachment, (message, index) ∈ messages.zipIdx ∧
        attachment ∈ responses message.id ∧ snapshotAttachment index attachment = entry := by
  rw [snapshotEntries_eq hids, List.mem_flatMap]
  constructor
  · rintro ⟨⟨message, index⟩, hmem, hentry⟩
    obtain ⟨attachment, hattachment, rfl⟩ := List.mem_map.mp hentry
    exact ⟨message, index, attachment, hmem, hattachment, rfl⟩
  · rintro ⟨message, index, attachment, hmem, hattachment, rfl⟩
    exact ⟨(message, index), hmem, List.mem_map_of_mem hattachment⟩

/-- **Refs are distinct.** -/
theorem snapshot_refs_nodup (hids : (messages.map (·.id)).Nodup)
    (hpositions : ∀ message ∈ messages, ((responses message.id).map (·.position)).Nodup) :
    (snapshotRefs
      (buildSnapshot title messages (snapshotAttachments messages responses))).Nodup := by
  have hrefs : ∀ (index : ℕ) (list : List MessageAttachmentResponse),
      (list.map (snapshotAttachment index)).filterMap (Dict.get? · "ref") =
        (list.filter (·.id ≠ Uuid.zero)).map fun attachment =>
          Json.str (attachmentRef index attachment.position) := by
    intro index list
    induction list with
    | nil => rfl
    | cons attachment list ih =>
      by_cases hasset : attachment.id = Uuid.zero <;>
        simp [get?_ref_snapshotAttachment, hasset, ih]
  rw [snapshotRefs, snapshotEntries_eq hids, List.filterMap_flatMap]
  simp only [hrefs]
  rw [List.nodup_flatMap]
  constructor
  · intro pair hpair
    have hmem : pair.1 ∈ messages := List.fst_mem_of_mem_zipIdx hpair
    have hkept : ((responses pair.1.id).filter fun a => a.id ≠ Uuid.zero).Sublist
        (responses pair.1.id) := List.filter_sublist
    have hnodup := (hpositions pair.1 hmem).sublist (hkept.map fun a => a.position)
    have hinj : Function.Injective fun position => Json.str (attachmentRef pair.2 position) :=
      fun p q h => (attachmentRef_inj (Json.str.inj h)).2
    simpa [Function.comp_def] using hnodup.map hinj
  · have hindexes : messages.zipIdx.Pairwise fun pair other => pair.2 ≠ other.2 := by
      have hnodup : (messages.zipIdx.map Prod.snd).Nodup := by
        rw [List.zipIdx_map_snd]
        exact List.nodup_range'
      exact List.pairwise_map.mp hnodup
    refine hindexes.imp fun {pair other} hne => ?_
    intro ref hleft hright
    obtain ⟨a, -, rfl⟩ := List.mem_map.mp hleft
    obtain ⟨b, -, hb⟩ := List.mem_map.mp hright
    exact hne (attachmentRef_inj (Json.str.inj hb)).1.symm

/-! ### What the scan finds -/

theorem scanAttachments_obj (ref : String) (entries : List Dict) :
    scanAttachments ref (entries.map .obj) =
      some ((entries.find? fun entry => Dict.get? entry "ref" = some (.str ref)).map
        attachmentFileId) := by
  induction entries with
  | nil => rfl
  | cons entry entries ih =>
    rw [List.map_cons, scanAttachments]
    by_cases href : Dict.get? entry "ref" = some (.str ref)
    · rw [if_pos href, List.find?_cons_of_pos (by simpa using href), Option.map_some]
    · rw [if_neg href, List.find?_cons_of_neg (by simpa using href), ih]

theorem attachmentList_of_get? {message : Dict} {entries : List Dict}
    (h : Dict.get? message "attachments" = some (.arr (entries.map .obj))) :
    attachmentList message = some (entries.map .obj) := by
  rw [attachmentList, h]
  cases entries with
  | nil => rfl
  | cons => rfl

/-- The scan answers with the first entry of the ref. -/
theorem scanMessages_obj (ref : String) (pairs : List (Dict × List Dict))
    (hattachments : ∀ pair ∈ pairs,
      Dict.get? pair.1 "attachments" = some (.arr (pair.2.map .obj))) :
    scanMessages ref (pairs.map fun pair => .obj pair.1) =
      some (((pairs.flatMap (·.2)).find? fun entry =>
        Dict.get? entry "ref" = some (.str ref)).bind attachmentFileId) := by
  induction pairs with
  | nil => rfl
  | cons pair pairs ih =>
    have hfirst := attachmentList_of_get? (hattachments pair List.mem_cons_self)
    have hrest := ih fun other hother => hattachments other (List.mem_cons_of_mem _ hother)
    rw [List.map_cons, scanMessages, hfirst]
    simp only [scanAttachments_obj]
    rw [List.flatMap_cons, List.find?_append]
    cases hfind : pair.2.find? fun entry => Dict.get? entry "ref" = some (.str ref) with
    | none => rw [Option.map_none, hrest, Option.none_or]
    | some => rw [Option.map_some, Option.some_or, Option.bind_some]

theorem snapshotAttachmentFileId_eq (ref : String) :
    snapshotAttachmentFileId (buildSnapshot title messages attachments) ref =
      some (((snapshotEntries (buildSnapshot title messages attachments)).find? fun entry =>
        Dict.get? entry "ref" = some (.str ref)).bind attachmentFileId) := by
  let pairs := messages.zipIdx.map fun pair : Message × ℕ =>
    (snapshotMessage messages attachments pair.1 pair.2, attachments pair.1.id)
  have hattachments : ∀ pair ∈ pairs,
      Dict.get? pair.1 "attachments" = some (.arr (pair.2.map .obj)) := by
    intro pair hpair
    obtain ⟨source, -, rfl⟩ := List.mem_map.mp hpair
    exact get?_attachments_snapshotMessage source.1 source.2
  have hscan := scanMessages_obj ref pairs hattachments
  have hentries : pairs.flatMap (·.2) =
      snapshotEntries (buildSnapshot title messages attachments) := by
    rw [snapshotEntries_buildSnapshot, List.flatMap_map]
  have hobjects : (pairs.map fun pair => Json.obj pair.1) =
      messages.zipIdx.map fun pair => .obj (snapshotMessage messages attachments
        pair.1 pair.2) := by
    rw [List.map_map]
    rfl
  rw [hentries, hobjects] at hscan
  rw [snapshotAttachmentFileId, get?_messages_buildSnapshot]
  exact hscan

/-- **A ref resolves to the file it was made for.** -/
theorem snapshotAttachmentFileId_ref (hids : (messages.map (·.id)).Nodup)
    (hpositions : ∀ message ∈ messages, ((responses message.id).map (·.position)).Nodup)
    {message : Message} {index : ℕ} (hmessage : (message, index) ∈ messages.zipIdx)
    {attachment : MessageAttachmentResponse} (hattachment : attachment ∈ responses message.id)
    (hasset : attachment.id ≠ Uuid.zero) :
    snapshotAttachmentFileId
      (buildSnapshot title messages (snapshotAttachments messages responses))
      (attachmentRef index attachment.position) = some (some attachment.id) := by
  have hentry : snapshotAttachment index attachment ∈
      snapshotEntries (buildSnapshot title messages (snapshotAttachments messages responses)) :=
    (mem_snapshotEntries hids).mpr ⟨message, index, attachment, hmessage, hattachment, rfl⟩
  have href : Dict.get? (snapshotAttachment index attachment) "ref" =
      some (.str (attachmentRef index attachment.position)) := by
    rw [get?_ref_snapshotAttachment, if_neg hasset]
  rw [snapshotAttachmentFileId_eq]
  cases hfind : (snapshotEntries (buildSnapshot title messages
      (snapshotAttachments messages responses))).find? fun entry =>
        Dict.get? entry "ref" = some (.str (attachmentRef index attachment.position)) with
  | none =>
    have hnot := List.find?_eq_none.mp hfind _ hentry
    exact absurd href (by simpa using hnot)
  | some found =>
    have hfound : Dict.get? found "ref" = some (.str
      (attachmentRef index attachment.position)) := by
      simpa using List.find?_some hfind
    obtain ⟨other, place, twin, hother, htwin, rfl⟩ :=
      (mem_snapshotEntries hids).mp (List.mem_of_find?_eq_some hfind)
    rw [get?_ref_snapshotAttachment] at hfound
    by_cases hzero : twin.id = Uuid.zero
    · rw [if_pos hzero] at hfound
      cases hfound
    rw [if_neg hzero] at hfound
    -- the same ref is the same place, and so the same attachment
    obtain ⟨rfl, hposition⟩ := attachmentRef_inj (Json.str.inj (Option.some.inj hfound))
    obtain rfl : other = message := by
      have hleft := List.mk_mem_zipIdx_iff_getElem?.mp hother
      have hright := List.mk_mem_zipIdx_iff_getElem?.mp hmessage
      exact Option.eq_some_unique hleft hright
    obtain rfl : twin = attachment :=
      List.inj_on_of_nodup_map (hpositions other (List.fst_mem_of_mem_zipIdx hother)) htwin
        hattachment hposition
    rw [Option.bind_some, attachmentFileId_snapshotAttachment place hzero]

/-- **A ref that is not in the snapshot resolves to nothing.** -/
theorem snapshotAttachmentFileId_of_notMem
    (href : Json.str ref ∉ snapshotRefs (buildSnapshot title messages attachments)) :
    snapshotAttachmentFileId (buildSnapshot title messages attachments) ref = some none := by
  have hnone : ((snapshotEntries (buildSnapshot title messages attachments)).find? fun entry =>
      Dict.get? entry "ref" = some (.str ref)) = none := by
    refine List.find?_eq_none.mpr fun entry hentry hfound => href ?_
    exact List.mem_filterMap.mpr ⟨entry, hentry, by simpa using hfound⟩
  rw [snapshotAttachmentFileId_eq, hnone, Option.bind_none]

/-! ### Quotes -/

/-- Every quoted index of a snapshot is that of an earlier entry of an assistant. -/
def QuotesEarlier (snapshot : Dict) : Prop :=
  ∀ (index : ℕ) (message quote : Dict) (n : ℤ),
    (snapshotMessages snapshot)[index]? = some message →
    Dict.get? message "reply_quote" = some (.obj quote) →
    Dict.get? quote "source_message_index" = some (.int n) →
    ∃ source : ℕ, n = source ∧ source < index ∧
      ∃ earlier, (snapshotMessages snapshot)[source]? = some earlier ∧
        Dict.get? earlier "role" = some (.str Role.assistant.value)

theorem replyQuoteSourceIndex_eq_some {message : Message} {index source : ℕ}
    (h : replyQuoteSourceIndex messages message index = some source)
    (hlength : index < messages.length) :
    source < index ∧ ∃ earlier, messages[source]? = some earlier ∧ earlier.role = .assistant := by
  unfold replyQuoteSourceIndex at h
  split at h
  · cases h
  · obtain ⟨hnot, heq⟩ := Option.ite_none_left_eq_some.mp h
    rw [Option.some.inj heq] at hnot
    obtain ⟨hindex, hrole⟩ := not_or.mp hnot
    have hlt : source < messages.length := by omega
    refine ⟨by omega, messages[source], List.getElem?_eq_getElem hlt, ?_⟩
    rw [List.getElem?_eq_getElem hlt] at hrole
    simpa using hrole

/-- **Quotes point to earlier answers.** -/
theorem snapshot_quotesEarlier : QuotesEarlier (buildSnapshot title messages attachments) := by
  have hlookup : ∀ index : ℕ,
      (snapshotMessages (buildSnapshot title messages attachments))[index]? =
        messages[index]?.map fun message => snapshotMessage messages attachments message index := by
    intro index
    rw [snapshotMessages_buildSnapshot, List.getElem?_map, List.getElem?_zipIdx, Option.map_map,
      Nat.zero_add]
    rfl
  intro index entry quote n hentry hquote hsource
  rw [hlookup] at hentry
  obtain ⟨message, hmessage, rfl⟩ := Option.map_eq_some_iff.mp hentry
  have hreply : Dict.get? (snapshotMessage messages attachments message index) "reply_quote" =
      some (snapshotReplyQuote messages message index) := by
    simp [snapshotMessage, Dict.get?_cons]
  rw [hreply, snapshotReplyQuote] at hquote
  cases hexcerpt : message.replyQuoteExcerpt with
  | none => simp [hexcerpt] at hquote
  | some =>
    simp only [hexcerpt, Option.some.injEq, Json.obj.injEq] at hquote
    subst hquote
    rw [Dict.get?_cons, if_neg (by decide), Dict.get?_cons, if_pos rfl] at hsource
    cases hindex : replyQuoteSourceIndex messages message index with
    | none => simp [hindex] at hsource
    | some source =>
      simp only [hindex, Option.some.injEq, Json.int.injEq] at hsource
      have hlength : index < messages.length := (List.getElem?_eq_some_iff.mp hmessage).1
      obtain ⟨hlt, earlier, hearlier, hrole⟩ := replyQuoteSourceIndex_eq_some hindex hlength
      refine ⟨source, hsource.symm, hlt, _, (hlookup source).trans (by rw [hearlier]; rfl), ?_⟩
      simp [snapshotMessage, Dict.get?_cons, hrole]

end built

/-! ### What is read for a share -/

/-- The messages and attachments that a share is built from. The keys of the tables make the ids of
the messages distinct, and the positions of the attachments of one message. -/
structure Reading where
  title : Option String
  messages : List Message
  rows : List (MessageAttachment × Option FileAsset)
  previews : List ℕ
  ids : (messages.map (·.id)).Nodup
  positions : (rows.map fun row => (row.1.messageId, row.1.position)).Nodup

/-- The projection of `attachment_responses`. -/
def Reading.responses (reading : Reading) : ℕ → List MessageAttachmentResponse :=
  attachmentResponses (fun file => file ∈ reading.previews) reading.rows

/-- The snapshot that `create_share` stores. -/
def Reading.snapshot (reading : Reading) : Dict :=
  buildSnapshot reading.title reading.messages
    (snapshotAttachments reading.messages reading.responses)

theorem Reading.positions_nodup (reading : Reading) (messageId : ℕ) :
    ((reading.responses messageId).map (·.position)).Nodup := by
  have hmine : (reading.rows.filter fun row => row.1.messageId = messageId).Nodup := by
    exact (List.Nodup.of_map _ reading.positions).filter _
  rw [Reading.responses, attachmentResponses, List.map_map]
  refine hmine.map_on fun row hrow other hother heq => ?_
  obtain ⟨hmem, hid⟩ := List.mem_filter.mp hrow
  obtain ⟨hmem', hid'⟩ := List.mem_filter.mp hother
  refine List.inj_on_of_nodup_map reading.positions hmem hmem' (Prod.ext ?_ heq)
  exact (of_decide_eq_true hid).trans (of_decide_eq_true hid').symm

/-- What a snapshot exposes: distinct refs, each of which resolves to the file of the attachment it
was made for, no other refs, and quotes of earlier answers only. -/
structure ExposesOnly (reading : Reading) (snapshot : Dict) : Prop where
  refs : (snapshotRefs snapshot).Nodup
  files : ∀ (index : ℕ) (message : Message) (attachment : MessageAttachment) (file : FileAsset),
    reading.messages[index]? = some message → (attachment, some file) ∈ reading.rows →
    attachment.messageId = message.id → file.publicId ≠ Uuid.zero →
    Json.str (attachmentRef index attachment.position) ∈ snapshotRefs snapshot ∧
      snapshotAttachmentFileId snapshot (attachmentRef index attachment.position) =
        some (some file.publicId)
  made : ∀ ref ∈ snapshotRefs snapshot, ∃ index message attachment file,
    reading.messages[index]? = some message ∧ (attachment, some file) ∈ reading.rows ∧
      attachment.messageId = message.id ∧ ref = .str (attachmentRef index attachment.position)
  others : ∀ ref, Json.str ref ∉ snapshotRefs snapshot →
    snapshotAttachmentFileId snapshot ref = some none
  quotes : QuotesEarlier snapshot

/-- **A snapshot exposes only what it was built from.** -/
theorem Reading.exposesOnly (reading : Reading) : ExposesOnly reading reading.snapshot where
  refs := snapshot_refs_nodup reading.ids fun message _ => reading.positions_nodup message.id
  files index message attachment file hmessage hrow hid hfile := by
    let response := attachmentResponse (fun file => file ∈ reading.previews) (attachment, some file)
    have hresponse : response ∈ reading.responses message.id :=
      List.mem_map_of_mem (List.mem_filter.mpr ⟨hrow, by simpa using hid⟩)
    have hasset : response.id ≠ Uuid.zero := hfile
    have hpair := List.mk_mem_zipIdx_iff_getElem?.mpr hmessage
    constructor
    · refine List.mem_filterMap.mpr ⟨snapshotAttachment index response, ?_, ?_⟩
      · exact (mem_snapshotEntries reading.ids).mpr
          ⟨message, index, response, hpair, hresponse, rfl⟩
      · rw [get?_ref_snapshotAttachment, if_neg hasset]
        rfl
    · change snapshotAttachmentFileId _ (attachmentRef index response.position) = some (some _)
      exact snapshotAttachmentFileId_ref reading.ids
        (fun message _ => reading.positions_nodup message.id) hpair hresponse hfile
  made ref href := by
    obtain ⟨entry, hentry, hget⟩ := List.mem_filterMap.mp href
    obtain ⟨message, index, response, hpair, hresponse, rfl⟩ :=
      (mem_snapshotEntries reading.ids).mp hentry
    obtain ⟨⟨attachment, file⟩, hrow, rfl⟩ := List.mem_map.mp hresponse
    obtain ⟨hmem, hid⟩ := List.mem_filter.mp hrow
    rw [get?_ref_snapshotAttachment] at hget
    obtain ⟨hasset, heq⟩ := Option.ite_none_left_eq_some.mp hget
    cases file with
    | none => exact absurd rfl hasset
    | some file =>
      exact ⟨index, message, attachment, file, List.mk_mem_zipIdx_iff_getElem?.mp hpair, hmem,
        of_decide_eq_true hid, (Option.some.inj heq).symm⟩
  others _ href := snapshotAttachmentFileId_of_notMem href
  quotes := snapshot_quotesEarlier

end IChat.Shares
