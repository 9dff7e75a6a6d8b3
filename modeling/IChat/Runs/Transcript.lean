import IChat.Agent.Messages
import IChat.General.Except
import IChat.General.SeqLog
import Mathlib.Data.List.Sort

/-!
# The transcript codec

A message of a run's transcript is stored as a row of `run_provider_messages`: its role and its
blocks as a JSON array. `serializeBlocks` and `deserializeBlocks` are written separately, as they
are in the source, one equation for each kind of block.

* `deserializeBlock_serializeBlock`: a block that meets the decoder's constraints (`Valid`) is read
  back as it was.
* `valid_of_deserializeBlock`: whatever the decoder accepts gives a block that meets them.

Together they are the two round trips of the codec, and `loadTranscript_appendTranscript` carries
them to whole transcripts. Rows from before the codec have the wire fields of their provider
instead of blocks; `json.loads`, which reads the arguments of their tool calls, is a parameter.
-/

namespace IChat

/-! ### Encoding -/

/-- `serialize_blocks`, for one block. -/
def serializeBlock : ContentBlock → Dict
  | .text text => [("type", .str "text"), ("text", .str text)]
  | .document fileId filename mediaType text sha256 extractorVersion warnings summary origin =>
    [("type", .str "document"), ("file_id", .str fileId), ("filename", .str filename),
      ("media_type", .str mediaType), ("text", .str text), ("sha256", .str sha256),
      ("extractor_version", .str extractorVersion), ("warnings", .arr (warnings.map .str)),
      ("summary", summary.elim .null .obj)] ++
    -- uploads keep the shape without an origin
    if origin ≠ "upload" then [("origin", .str origin)] else []
  | .image fileId filename mediaType sha256 width height processorVersion warnings =>
    [("type", .str "image"), ("file_id", .str fileId), ("filename", .str filename),
      ("media_type", .str mediaType), ("sha256", .str sha256), ("width", .int width),
      ("height", .int height), ("processor_version", .str processorVersion),
      ("warnings", .arr (warnings.map .str))]
  | .attachmentNotice fileId filename mediaType notice =>
    [("type", .str "attachment_notice"), ("file_id", .str fileId), ("filename", .str filename),
      ("media_type", .str mediaType), ("notice", .str notice)]
  | .reasoning text kind =>
    [("type", .str "reasoning"), ("kind", .str kind.value), ("text", .str text)]
  | .providerContinuation owner codec scope payload =>
    [("type", .str "provider_continuation"), ("owner", .str owner), ("codec", .str codec),
      ("scope", .str scope), ("payload", .obj payload)]
  | .toolCall id name arguments =>
    [("type", .str "tool_call"), ("id", .str id), ("name", .str name),
      ("arguments", .obj arguments)]
  | .toolResult toolCallId content isError =>
    [("type", .str "tool_result"), ("tool_call_id", .str toolCallId), ("content", .str content),
      ("is_error", .bool isError)]

/-- `serialize_blocks`. -/
def serializeBlocks (blocks : List ContentBlock) : Json :=
  .arr (blocks.map fun block => .obj (serializeBlock block))

/-! ### Decoding -/

/-- `_required_string`. -/
def requiredString (raw : Dict) (field : String) : Except String String :=
  match raw.get? field with
  | some (.str value) => .ok value
  | _ => .error ("Transcript block field " ++ Json.reprStr field ++ " must be a string")

/-- `_required_positive_int`. -/
def requiredPositiveInt (raw : Dict) (field : String) : Except String Int :=
  match raw.get? field with
  | some (.int value) =>
    if value ≤ 0 then
      .error ("Transcript image field " ++ Json.reprStr field ++ " must be a positive integer")
    else .ok value
  | _ => .error ("Transcript image field " ++ Json.reprStr field ++ " must be a positive integer")

/-- `_require_exact_fields`: the keys of the object are the expected ones. -/
def requireExactFields (raw : Dict) (expected : List String) (blockName : String) :
    Except String Unit :=
  if (∀ p ∈ raw, p.1 ∈ expected) ∧ ∀ key ∈ expected, ∃ p ∈ raw, p.1 = key then .ok ()
  else .error ("Transcript " ++ blockName ++ " fields are incomplete or inconsistent")

/-- An array of strings. -/
def stringArray (value : Option Json) (message : String) : Except String (List String) :=
  match value with
  | some (.arr items) =>
    match items.mapM Json.str? with
    | some texts => .ok texts
    | none => .error message
  | _ => .error message

/-- An optional object. -/
def optionalObject (value : Option Json) (message : String) : Except String (Option Dict) :=
  match value with
  | none | some .null => .ok none
  | some (.obj fields) => .ok (some fields)
  | _ => .error message

/-- An object. -/
def requiredObject (value : Option Json) (message : String) : Except String Dict :=
  match value with
  | some (.obj fields) => .ok fields
  | _ => .error message

/-- The origin of a document. -/
def documentOrigin (value : Option Json) : Except String String :=
  match value with
  | none => .ok "upload"
  | some (.str origin) =>
    if origin = "upload" ∨ origin = "paste" then .ok origin
    else .error "Transcript document origin is invalid"
  | _ => .error "Transcript document origin is invalid"

/-- The kind of a reasoning block. -/
def reasoningKind (value : Option Json) : Except String ReasoningKind :=
  match value with
  | none => .ok .raw
  | some (.str kind) =>
    if kind = "raw" then .ok .raw
    else if kind = "summary" then .ok .summary
    else .error "Transcript reasoning kind is unsupported"
  | _ => .error "Transcript reasoning kind is unsupported"

/-- The error flag of a tool result. -/
def resultIsError (value : Option Json) : Except String Bool :=
  match value with
  | none => .ok false
  | some (.bool isError) => .ok isError
  | _ => .error "Transcript tool_result is_error must be a boolean"

def imageFields : List String :=
  ["type", "file_id", "filename", "media_type", "sha256", "width", "height", "processor_version",
    "warnings"]

def continuationFields : List String := ["type", "owner", "codec", "scope", "payload"]

/-- `_deserialize_blocks`, for the fields of one block. -/
def deserializeFields (raw : Dict) : Except String ContentBlock :=
  match raw.get? "type" with
  | some (.str type) =>
    if type = "text" then do
      .ok (.text (← requiredString raw "text"))
    else if type = "document" then do
      let warnings ← stringArray (some ((raw.get? "warnings").getD (.arr [])))
        "Transcript document warnings must be a string array"
      let summary ← optionalObject (raw.get? "summary")
        "Transcript document summary must be a JSON object"
      let origin ← documentOrigin (raw.get? "origin")
      .ok (.document (← requiredString raw "file_id") (← requiredString raw "filename")
        (← requiredString raw "media_type") (← requiredString raw "text")
        (← requiredString raw "sha256") (← requiredString raw "extractor_version") warnings summary
        origin)
    else if type = "attachment_notice" then do
      .ok (.attachmentNotice (← requiredString raw "file_id") (← requiredString raw "filename")
        (← requiredString raw "media_type") (← requiredString raw "notice"))
    else if type = "image" then do
      requireExactFields raw imageFields "image"
      let warnings ← stringArray (raw.get? "warnings")
        "Transcript image warnings must be a string array"
      let width ← requiredPositiveInt raw "width"
      let height ← requiredPositiveInt raw "height"
      .ok (.image (← requiredString raw "file_id") (← requiredString raw "filename")
        (← requiredString raw "media_type") (← requiredString raw "sha256") width height
        (← requiredString raw "processor_version") warnings)
    else if type = "reasoning" then do
      let kind ← reasoningKind (raw.get? "kind")
      .ok (.reasoning (← requiredString raw "text") kind)
    else if type = "provider_continuation" then do
      requireExactFields raw continuationFields "provider continuation"
      let payload ← requiredObject (raw.get? "payload")
        "Transcript provider continuation payload must be a JSON object"
      .ok (.providerContinuation (← requiredString raw "owner") (← requiredString raw "codec")
        (← requiredString raw "scope") payload)
    else if type = "tool_call" then do
      let arguments ← requiredObject (raw.get? "arguments")
        "Transcript tool_call arguments must be a JSON object"
      .ok (.toolCall (← requiredString raw "id") (← requiredString raw "name") arguments)
    else if type = "tool_result" then do
      let isError ← resultIsError (raw.get? "is_error")
      .ok (.toolResult (← requiredString raw "tool_call_id") (← requiredString raw "content")
        isError)
    else .error ("Unsupported transcript block type: " ++ Json.reprStr type)
  | type => .error ("Unsupported transcript block type: " ++ (type.getD .null).repr)

/-- `_deserialize_blocks`, for one item of the array. -/
def deserializeBlock : Json → Except String ContentBlock
  | .obj raw => deserializeFields raw
  | _ => .error "Transcript block must be a JSON object"

/-- `_deserialize_blocks`. -/
def deserializeBlocks : Json → Except String (List ContentBlock)
  | .arr items => items.mapM deserializeBlock
  | _ => .error "Transcript blocks must be a JSON array"

/-! ### The round trips -/

/-- What the decoder asks of a block beyond the types of its fields. -/
def ContentBlock.Valid : ContentBlock → Prop
  | .document _ _ _ _ _ _ _ _ origin => origin = "upload" ∨ origin = "paste"
  | .image _ _ _ _ width height _ _ => 0 < width ∧ 0 < height
  | _ => True

/-- What the decoder asks of a message: it has no system role, and its blocks are valid. -/
structure Message.Valid (message : Message) : Prop where
  role_ne : message.role ≠ .system
  blocks : ∀ block ∈ message.blocks, block.Valid

section codec

variable {raw : Dict} {block : ContentBlock} {blocks : List ContentBlock}

@[simp] theorem stringArray_map (texts : List String) (message : String) :
    stringArray (some (.arr (texts.map .str))) message = .ok texts := by
  have hread : (texts.map Json.str).mapM Json.str? = some texts := by
    induction texts with
    | nil => rfl
    | cons text texts ih => simp [ih]
  simp [stringArray, hread]

@[simp] theorem optionalObject_elim (summary : Option Dict) (message : String) :
    optionalObject (some (summary.elim .null .obj)) message = .ok summary := by
  cases summary <;> rfl

@[simp] theorem reasoningKind_value (kind : ReasoningKind) :
    reasoningKind (some (.str kind.value)) = .ok kind := by
  cases kind <;> rfl

/-- **Encode, then decode.** -/
theorem deserializeBlock_serializeBlock (h : block.Valid) :
    deserializeBlock (.obj (serializeBlock block)) = .ok block := by
  cases block with
  | document =>
    rcases h with rfl | rfl <;>
      simp [deserializeBlock, deserializeFields, serializeBlock, Dict.get?_cons, requiredString,
        documentOrigin, bind, Except.bind]
  | image fileId filename mediaType sha256 width height =>
    have hwidth : ¬width ≤ 0 := by
      have := h.1
      omega
    have hheight : ¬height ≤ 0 := by
      have := h.2
      omega
    simp [deserializeBlock, deserializeFields, serializeBlock, Dict.get?_cons, requiredString,
      requiredPositiveInt, requireExactFields, imageFields, hwidth, hheight, bind, Except.bind]
  | _ =>
    simp [deserializeBlock, deserializeFields, serializeBlock, Dict.get?_cons, requiredString,
      requireExactFields, continuationFields, requiredObject, resultIsError, bind, Except.bind]

theorem requiredPositiveInt_eq_ok {field : String} {value : Int}
    (h : requiredPositiveInt raw field = .ok value) : 0 < value := by
  unfold requiredPositiveInt at h
  split at h
  · split_ifs at h with hle
    cases h
    omega
  · cases h

theorem documentOrigin_eq_ok {value : Option Json} {origin : String}
    (h : documentOrigin value = .ok origin) : origin = "upload" ∨ origin = "paste" := by
  unfold documentOrigin at h
  split at h
  · cases h
    exact .inl rfl
  · split_ifs at h with horigin
    cases h
    exact horigin
  · cases h

/-- **Decode, then check.** The decoder makes only blocks that meet its constraints. -/
theorem valid_of_deserializeFields (h : deserializeFields raw = .ok block) : block.Valid := by
  unfold deserializeFields at h
  split at h
  · split_ifs at h <;> simp only [bind_eq_ok_iff, Except.ok.injEq] at h
    · obtain ⟨_, _, rfl⟩ := h
      trivial
    · obtain ⟨_, _, _, _, _, horigin, _, _, _, _, _, _, _, _, _, _, _, _, rfl⟩ := h
      exact documentOrigin_eq_ok horigin
    · obtain ⟨_, _, _, _, _, _, _, _, rfl⟩ := h
      trivial
    · obtain ⟨_, _, _, _, _, hwidth, _, hheight, _, _, _, _, _, _, _, _, _, _, rfl⟩ := h
      exact ⟨requiredPositiveInt_eq_ok hwidth, requiredPositiveInt_eq_ok hheight⟩
    · obtain ⟨_, _, _, _, rfl⟩ := h
      trivial
    · obtain ⟨_, _, _, _, _, _, _, _, _, _, rfl⟩ := h
      trivial
    · obtain ⟨_, _, _, _, _, _, rfl⟩ := h
      trivial
    · obtain ⟨_, _, _, _, _, _, rfl⟩ := h
      trivial
  · cases h

theorem valid_of_deserializeBlock {value : Json} (h : deserializeBlock value = .ok block) :
    block.Valid := by
  cases value with
  | obj => exact valid_of_deserializeFields h
  | _ => cases h

/-- The codec on a list of blocks. -/
theorem deserializeBlocks_serializeBlocks (h : ∀ block ∈ blocks, block.Valid) :
    deserializeBlocks (serializeBlocks blocks) = .ok blocks :=
  Except.mapM_eq_ok_of_forall fun block hblock => deserializeBlock_serializeBlock (h block hblock)

theorem valid_of_deserializeBlocks {value : Json} (h : deserializeBlocks value = .ok blocks) :
    ∀ block ∈ blocks, block.Valid := by
  intro block hblock
  cases value with
  | arr =>
    obtain ⟨item, _, hitem⟩ := Except.exists_of_mapM_eq_ok h block hblock
    exact valid_of_deserializeBlock hitem
  | _ => cases h

end codec

namespace Transcript

/-! ### Stored rows -/

/-- `RunProviderMessage`: a row of the transcript. Rows from before the codec have the wire fields
of their provider and no blocks; a JSON column without a value reads as `null`. -/
structure TranscriptRow where
  seq : ℕ
  messageId : Option ℕ
  role : String
  blocks : Json
  content : Option String
  reasoningContent : Option String
  toolCallId : Option String
  toolName : Option String
  toolCalls : Json
  deriving DecidableEq

/-- `get_next_transcript_seq`. -/
def getNextTranscriptSeq (rows : List TranscriptRow) : ℕ :=
  match (rows.map TranscriptRow.seq).max? with
  | none => 1
  | some maxSeq => maxSeq + 1

/-- The row of a message. -/
def storedRow (seq : ℕ) (message : Message) (messageId : Option ℕ) : TranscriptRow where
  seq := seq
  messageId := messageId
  role := message.role.value
  blocks := serializeBlocks message.blocks
  content := none
  reasoningContent := none
  toolCallId := none
  toolName := none
  toolCalls := .null

/-- `append_transcript_message`. -/
def appendTranscriptMessage (rows : List TranscriptRow) (message : Message)
    (messageId : Option ℕ) : Except String (List TranscriptRow) :=
  if message.role = .system then .error "System messages are not part of a run transcript"
  else .ok (rows ++ [storedRow (getNextTranscriptSeq rows) message messageId])

/-- `_legacy_wire_from_row`. -/
def legacyWireFromRow (row : TranscriptRow) : Dict :=
  [("role", .str row.role), ("content", row.content.elim .null .str)] ++
    (row.reasoningContent.elim [] fun text => [("reasoning_content", .str text)]) ++
    (row.toolCallId.elim [] fun id => [("tool_call_id", .str id)]) ++
    (row.toolName.elim [] fun name => [("name", .str name)]) ++
    if row.toolCalls ≠ .null then [("tool_calls", row.toolCalls)] else []

/-- `str(value or "")`. -/
def textOrEmpty (value : Option Json) : String :=
  match value with
  | some value => if value.truthy then value.toStr else ""
  | none => ""

/-- A text, or the empty one for another value. -/
def contentOrEmpty (value : Option Json) : String :=
  match value with
  | some (.str text) => text
  | _ => ""

section rows

-- `json.loads`: nothing when the text does not decode
variable (loads : String → Option Json)

/-- `decode_arguments`. -/
def decodeArguments (raw : Option Json) : Dict :=
  match raw with
  | some (.obj fields) => fields
  | some (.str text) =>
    if text = "" then []
    else match loads text with
      | some (.obj fields) => fields
      | _ => []
  | _ => []

/-- The tool call of one item of `tool_calls`; an item of another shape is skipped. -/
def toolCallFromWire (item : Json) : Option ContentBlock :=
  match item with
  | .obj call =>
    match Dict.get? call "function" with
    | some (.obj function) =>
      some (.toolCall (textOrEmpty (Dict.get? call "id"))
        (textOrEmpty (Dict.get? function "name"))
        (decodeArguments loads (Dict.get? function "arguments")))
    | _ => none
  | _ => none

/-- `message_from_wire`. -/
def messageFromWire (wire : Dict) : Except String Message :=
  let content := wire.get? "content"
  match wire.get? "role" with
  | some (.str role) =>
    if role = "tool" then
      .ok ⟨.user, [.toolResult (textOrEmpty (wire.get? "tool_call_id")) (contentOrEmpty content)
        false]⟩
    else if role = "assistant" then
      let reasoning := contentOrEmpty (wire.get? "reasoning_content")
      let text := contentOrEmpty content
      let calls := match wire.get? "tool_calls" with
        | some (.arr items) => items.filterMap (toolCallFromWire loads)
        | _ => []
      .ok ⟨.assistant, (if reasoning = "" then [] else [.reasoning reasoning .raw]) ++
        (if text = "" then [] else [.text text]) ++ calls⟩
    else if role = "user" then .ok ⟨.user, [.text (contentOrEmpty content)]⟩
    else if role = "system" then .ok ⟨.system, [.text (contentOrEmpty content)]⟩
    else .error ("Unsupported DeepSeek message role: " ++ Json.reprStr role)
  | role => .error ("Unsupported DeepSeek message role: " ++ (role.getD .null).repr)

/-- `_blocks_role`. -/
def blocksRole (role : String) : Except String Role :=
  if role = "user" then .ok .user
  else if role = "assistant" then .ok .assistant
  else if role = "system" then .ok .system
  else .error ("Unsupported blocks transcript role: " ++ Json.reprStr role)

/-- `transcript_message_from_row`. -/
def transcriptMessageFromRow (row : TranscriptRow) : Except String Message :=
  if row.blocks ≠ .null then do
    .ok ⟨← blocksRole row.role, ← deserializeBlocks row.blocks⟩
  else messageFromWire loads (legacyWireFromRow row)

/-- `load_transcript`. -/
def loadTranscript (rows : List TranscriptRow) : Except String (List Message) :=
  (rows.insertionSort fun a b => a.seq ≤ b.seq).mapM (transcriptMessageFromRow loads)

/-! ### The round trips of the rows -/

@[simp] theorem blocksRole_value (role : Role) : blocksRole role.value = .ok role := by
  cases role <;> rfl

theorem transcriptMessageFromRow_storedRow {message : Message} (seq : ℕ) (messageId : Option ℕ)
    (h : ∀ block ∈ message.blocks, block.Valid) :
    transcriptMessageFromRow loads (storedRow seq message messageId) = .ok message := by
  have hblocks : (storedRow seq message messageId).blocks ≠ .null := nofun
  have hread : deserializeBlocks (storedRow seq message messageId).blocks = .ok message.blocks :=
    deserializeBlocks_serializeBlocks h
  have hrole : blocksRole (storedRow seq message messageId).role = .ok message.role :=
    blocksRole_value message.role
  rw [transcriptMessageFromRow, if_pos hblocks, hrole, hread]
  rfl

/-- A tool call read from wire fields is valid, as every block without constraints is. -/
theorem valid_of_toolCallFromWire {item : Json} {block : ContentBlock}
    (h : toolCallFromWire loads item = some block) : block.Valid := by
  unfold toolCallFromWire at h
  split at h
  · split at h
    · cases h
      trivial
    · cases h
  · cases h

/-- The blocks that the wire fields of a row decode to are valid. -/
theorem valid_of_messageFromWire {wire : Dict} {message : Message}
    (h : messageFromWire loads wire = .ok message) : ∀ block ∈ message.blocks, block.Valid := by
  unfold messageFromWire at h
  split at h
  · split_ifs at h
    · cases h
      simp [ContentBlock.Valid]
    · cases h
      intro block hblock
      simp only [List.mem_append] at hblock
      rcases hblock with (hreasoning | htext) | hcall
      · split_ifs at hreasoning
        · cases hreasoning
        · rw [List.mem_singleton.mp hreasoning]
          trivial
      · split_ifs at htext
        · cases htext
        · rw [List.mem_singleton.mp htext]
          trivial
      · split at hcall
        · obtain ⟨item, _, hitem⟩ := List.mem_filterMap.mp hcall
          exact valid_of_toolCallFromWire loads hitem
        · cases hcall
    · cases h
      simp [ContentBlock.Valid]
    · cases h
      simp [ContentBlock.Valid]
  · cases h

/-- Whatever a row decodes to has valid blocks, with or without the codec. -/
theorem valid_of_transcriptMessageFromRow {row : TranscriptRow} {message : Message}
    (h : transcriptMessageFromRow loads row = .ok message) :
    ∀ block ∈ message.blocks, block.Valid := by
  unfold transcriptMessageFromRow at h
  split_ifs at h
  · simp only [bind_eq_ok_iff, Except.ok.injEq] at h
    obtain ⟨_, _, blocks, hblocks, rfl⟩ := h
    exact valid_of_deserializeBlocks hblocks
  · exact valid_of_messageFromWire loads h

/-- Every number of the transcript is below the next one. -/
theorem seq_lt_getNextTranscriptSeq {rows : List TranscriptRow} {row : TranscriptRow}
    (h : row ∈ rows) : row.seq < getNextTranscriptSeq rows := by
  unfold getNextTranscriptSeq
  split
  · next hnone =>
    rw [List.max?_eq_none_iff, List.map_eq_nil_iff] at hnone
    rw [hnone] at h
    cases h
  · next maxSeq hmax =>
    have hle := (List.max?_eq_some_iff.mp hmax).2 row.seq (List.mem_map_of_mem h)
    omega

/-- Rows in the order of their numbers are loaded as they stand. -/
theorem loadTranscript_of_ascending {rows : List TranscriptRow}
    (h : SeqLog.Ascending TranscriptRow.seq rows) :
    loadTranscript loads rows = rows.mapM (transcriptMessageFromRow loads) := by
  rw [loadTranscript, List.Pairwise.insertionSort_eq]
  exact List.Pairwise.imp le_of_lt h

/-- **Append, then load.** The messages appended to a run are its transcript, in order, after what
the run had before. -/
theorem loadTranscript_appendTranscript {entries : List (Message × Option ℕ)}
    (hentries : ∀ entry ∈ entries, entry.1.Valid) {rows : List TranscriptRow}
    {earlier : List Message} (hrows : SeqLog.Ascending TranscriptRow.seq rows)
    (hearlier : loadTranscript loads rows = .ok earlier) :
    ∃ rows', entries.foldlM (fun rows entry => appendTranscriptMessage rows entry.1 entry.2) rows =
        .ok rows' ∧
      loadTranscript loads rows' = .ok (earlier ++ entries.map Prod.fst) := by
  induction entries generalizing rows earlier with
  | nil => exact ⟨rows, rfl, by simpa using hearlier⟩
  | cons entry entries ih =>
    have hvalid : entry.1.Valid := hentries entry List.mem_cons_self
    let row := storedRow (getNextTranscriptSeq rows) entry.1 entry.2
    have happend : appendTranscriptMessage rows entry.1 entry.2 = .ok (rows ++ [row]) :=
      if_neg hvalid.role_ne
    have hascending : SeqLog.Ascending TranscriptRow.seq (rows ++ [row]) :=
      hrows.append_singleton fun other hother => seq_lt_getNextTranscriptSeq hother
    have hload : loadTranscript loads (rows ++ [row]) = .ok (earlier ++ [entry.1]) := by
      rw [loadTranscript_of_ascending loads hrows] at hearlier
      rw [loadTranscript_of_ascending loads hascending, List.mapM_append, hearlier, List.mapM_cons,
        transcriptMessageFromRow_storedRow loads _ _ hvalid.blocks]
      rfl
    obtain ⟨rows', hfold, hfinal⟩ :=
      ih (fun other hother => hentries other (List.mem_cons_of_mem _ hother)) hascending hload
    refine ⟨rows', ?_, by simpa using hfinal⟩
    rw [List.foldlM_cons, happend]
    exact hfold

/-- **The transcript codec.** Valid blocks, and the transcripts made of valid messages, are read
back as they were written; and what the decoder accepts, in an array or in a row of either shape,
is read back from its own encoding. -/
theorem transcript_roundTrip :
    (∀ blocks : List ContentBlock, (∀ block ∈ blocks, block.Valid) →
      deserializeBlocks (serializeBlocks blocks) = .ok blocks) ∧
    (∀ entries : List (Message × Option ℕ), (∀ entry ∈ entries, entry.1.Valid) →
      ∃ rows, entries.foldlM (fun rows entry => appendTranscriptMessage rows entry.1 entry.2) [] =
          .ok rows ∧
        loadTranscript loads rows = .ok (entries.map Prod.fst)) ∧
    (∀ (value : Json) (blocks : List ContentBlock), deserializeBlocks value = .ok blocks →
      deserializeBlocks (serializeBlocks blocks) = .ok blocks) ∧
    ∀ (row : TranscriptRow) (message : Message), transcriptMessageFromRow loads row = .ok message →
      transcriptMessageFromRow loads (storedRow row.seq message row.messageId) = .ok message := by
  refine ⟨fun blocks => deserializeBlocks_serializeBlocks, fun entries hentries => ?_,
    fun value blocks h => ?_, fun row message h => ?_⟩
  · have hempty : loadTranscript loads [] = .ok [] := by
      rw [loadTranscript_of_ascending loads SeqLog.ascending_nil]
      rfl
    obtain ⟨rows, hfold, hload⟩ :=
      loadTranscript_appendTranscript loads hentries SeqLog.ascending_nil hempty
    exact ⟨rows, hfold, by simpa using hload⟩
  · exact deserializeBlocks_serializeBlocks (valid_of_deserializeBlocks h)
  · exact transcriptMessageFromRow_storedRow loads _ _ (valid_of_transcriptMessageFromRow loads h)

end rows

/-- A pasted document without warnings or summary, read from fields that leave both out. -/
theorem pastedDocument_roundTrip :
    deserializeBlocks (serializeBlocks
        [.document "f" "notes.txt" "text/plain" "hello" "0" "1" [] none "paste"]) =
      .ok [.document "f" "notes.txt" "text/plain" "hello" "0" "1" [] none "paste"] :=
  (transcript_roundTrip fun _ => none).2.2.1
    (.arr [.obj [("type", .str "document"), ("file_id", .str "f"), ("filename", .str "notes.txt"),
      ("media_type", .str "text/plain"), ("text", .str "hello"), ("sha256", .str "0"),
      ("extractor_version", .str "1"), ("origin", .str "paste")]]) _ (by decide +kernel)

end Transcript

end IChat
