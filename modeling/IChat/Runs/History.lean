import IChat.Conversations.Records
import IChat.General.Url
import Mathlib.Data.List.DropRight

/-!
# The history of a run

`history.py`: the visible messages up to the target message of a run, as messages of the agent
kernel. A user message is replaced by what its run's transcript keeps of the turn. A run of the
same route may be replayed in full, its native state included; other succeeded runs are projected
to portable blocks; of every other run only the user input is kept.

The route of a run (`routeAffinity`) is read from the snapshot of its model's configuration.
`urllib.parse` and the parser of legacy tool arguments come with the parameters `u` and `loads`.
-/

namespace IChat

/-- The block is of a kind that the projections of a turn keep. -/
def ContentBlock.isPortable : ContentBlock → Bool
  | .text .. | .document .. | .image .. | .attachmentNotice .. => true
  | _ => false

/-- All blocks of the message are. -/
def Message.IsPortable (message : Message) : Prop :=
  ∀ block ∈ message.blocks, block.isPortable = true

/-- `user_text`. -/
def userText (text : String) : Message := ⟨.user, [.text text]⟩

namespace Conversations

open Transcript

/-! ### Route affinity -/

/-- `_RouteAffinity`. -/
structure RouteAffinity where
  adapter : String
  upstream : String
  baseUrl : String
  providerModel : String
  deriving DecidableEq

/-- A value that compares equal to the number: the integer, or a decimal of the same value. -/
def isNumber (n : ℕ) (value : Json) : Bool :=
  match value with
  | .int m => m = n
  | .float literal =>
    let zeros := literal.toList.drop ((toString n).length + 1)
    literal.toList = (toString n).toList ++ '.' :: zeros ∧ zeros.all (· = '0')
  | _ => false

/-- A text that is not empty. -/
def nonemptyText (value : Option Json) : Option String :=
  match value with
  | some (.str text) => if text = "" then none else some text
  | _ => none

section affinity

variable (u : Url.UnicodeData)

/-- `_normalize_base_url`. -/
def normalizeBaseUrl (value : String) : Option String := do
  let parsed ← Url.urlsplit u (Text.strip value.toList)
  let port ← parsed.port
  let scheme := parsed.scheme
  let hostname ← parsed.hostname u
  if (String.ofList scheme ≠ "http" ∧ String.ofList scheme ≠ "https") ∨ hostname = [] ∨
      parsed.userinfo ≠ (none, none) ∨ parsed.query ≠ [] ∨ parsed.fragment ≠ [] then
    none
  else
    let host := u.lower hostname
    let host := if ':' ∈ host then '[' :: host ++ [']'] else host
    let defaultPort := if String.ofList scheme = "http" then 80 else 443
    let netloc :=
      match port with
      | none => host
      | some port => if port = defaultPort then host else host ++ ':' :: (toString port).toList
    let path := Text.rstrip (· = '/') parsed.path
    -- `urlunsplit`: the network location is there, so the path becomes absolute
    let path := if path ≠ [] ∧ path.head? ≠ some '/' then '/' :: path else path
    some (String.ofList (scheme ++ [':', '/', '/'] ++ netloc ++ path))

/-- `_route_affinity`. -/
def routeAffinity (run : RunRow) : Option RouteAffinity := do
  let snapshot ← run.modelConfigSnapshot.obj?
  let version ← Dict.get? snapshot "version"
  if isNumber 1 version = false ∧ isNumber 2 version = false then none
  else
    let adapter ← nonemptyText (Dict.get? snapshot "adapter")
    let upstream ← nonemptyText (Dict.get? snapshot "upstream")
    let baseUrl ← nonemptyText (Dict.get? snapshot "base_url")
    let providerModel ← nonemptyText (Dict.get? snapshot "provider_model")
    if adapter ≠ run.providerName ∨ providerModel ≠ run.providerModel then none
    else
      let baseUrl ← normalizeBaseUrl u baseUrl
      some ⟨adapter, upstream, baseUrl, providerModel⟩

end affinity

/-! ### Turns -/

/-- `_exact_user_input`. -/
def exactUserInput (transcript : List Message) : List Message :=
  match transcript with
  | [] => []
  | first :: _ =>
    let blocks := first.blocks.filter ContentBlock.isPortable
    if first.role ≠ .user ∨ blocks = [] then [] else [⟨.user, blocks⟩]

/-- The texts of a message that are not empty. -/
def textBlocks (message : Message) : List ContentBlock :=
  message.blocks.filter fun
    | .text text => text ≠ ""
    | _ => false

/-- `_portable_turn`. -/
def portableTurn (transcript : List Message) : List Message :=
  let projected := exactUserInput transcript
  match transcript.reverse.find? fun message => message.role = .assistant with
  | none => projected
  | some finalAssistant =>
    if textBlocks finalAssistant = [] then projected
    else projected ++ [⟨.assistant, textBlocks finalAssistant⟩]

/-- `_ReplayMode`. -/
inductive ReplayMode where
  | full
  | portable
  | input
  deriving DecidableEq

namespace ConversationTables

variable (loads : String → Option Json) (u : Url.UnicodeData) (db : ConversationTables)

/-- `_load_run_transcript_for_history`. -/
def loadRunTranscriptForHistory (runId : ℕ) (mode : ReplayMode) : Except String (List Message) :=
  match db.runs.get? runId with
  | none => .ok []
  | some run => do
    let transcript ← loadTranscript loads run.transcript
    if run.status = .succeeded ∧ mode = .full then .ok transcript
    else if run.status = .succeeded ∧ mode = .portable then .ok (portableTurn transcript)
    else .ok (exactUserInput transcript)

/-! ### Replay modes -/

/-- The runs of the user messages before the target, each once. -/
def priorRunIds (targetMessageId : ℕ) (historyRows : List MessageRow) : List ℕ :=
  (historyRows.filterMap fun row =>
    if row.role ≠ .user ∨ row.id = targetMessageId then none else row.runId).eraseDups

/-- The run has succeeded. -/
def Succeeded (runId : ℕ) : Prop := ∃ run ∈ db.runs.get? runId, run.status = .succeeded

instance (runId : ℕ) : Decidable (db.Succeeded runId) :=
  inferInstanceAs (Decidable (∃ run ∈ db.runs.get? runId, _))

/-- The run has a given route. -/
def HasRoute (affinity : RouteAffinity) (runId : ℕ) : Prop :=
  ∃ run ∈ db.runs.get? runId, routeAffinity u run = some affinity

instance (affinity : RouteAffinity) (runId : ℕ) : Decidable (db.HasRoute u affinity runId) :=
  inferInstanceAs (Decidable (∃ run ∈ db.runs.get? runId, _))

/-- The scan of `_resolve_replay_modes`, from the latest run back to the first succeeded one of
another route. -/
def scanFullReplay (affinity : RouteAffinity) : List ℕ → List ℕ
  | [] => []
  | runId :: runIds =>
    match db.runs.get? runId with
    | none => scanFullReplay affinity runIds
    | some run =>
      if run.status ≠ .succeeded then scanFullReplay affinity runIds
      else if routeAffinity u run ≠ some affinity then []
      else runId :: scanFullReplay affinity runIds

/-- `full_replay_ids`. -/
def fullReplayIds (priorRunIds : List ℕ) (target : RunRow) : List ℕ :=
  match routeAffinity u target with
  | none => []
  | some affinity => db.scanFullReplay u affinity priorRunIds.reverse

/-- `_resolve_replay_modes`, with the default of its callers for other runs. -/
def resolveReplayMode (priorRunIds : List ℕ) (target : RunRow) (runId : ℕ) : ReplayMode :=
  if runId ∉ priorRunIds ∨ ¬db.Succeeded runId then .input
  else if runId ∈ db.fullReplayIds u priorRunIds target then .full
  else .portable

/-! ### The history -/

/-- What the loop of `_build_history` carries along. -/
structure HistoryState where
  messages : List Message
  skippedMessageIds : List ℕ

/-- The run that a user message is replayed from. -/
def replayRunId (target : RunRow) (row : MessageRow) : Option ℕ :=
  if row.id = target.userMessageId then some target.id else row.runId

/-- The transcript of a user message, as far as the mode of its run lets it through. -/
def rowTranscript (priorRunIds : List ℕ) (target : RunRow) (row : MessageRow) :
    Except String (List Message) :=
  match replayRunId target row with
  | none => .ok []
  | some runId =>
    db.loadRunTranscriptForHistory loads runId (db.resolveReplayMode u priorRunIds target runId)

/-- The messages of a user message's turn. A transcript that starts with the user input stands for
the whole turn; a legacy transcript starts with the output. -/
def userTurn (target : RunRow) (row : MessageRow) (transcript : List Message) : List Message :=
  if ∃ first ∈ transcript.head?, first.role = .user then transcript
  else userText row.content :: if row.id ≠ target.userMessageId then transcript else []

/-- The assistant messages of a run, which a replayed transcript already contains. -/
def materialized (historyRows : List MessageRow) (row : MessageRow) : List ℕ :=
  (historyRows.filter fun m => m.runId = row.runId ∧ m.id ≠ row.id ∧ m.role = .assistant).map
    MessageRow.id

/-- The body of the loop of `_build_history`. -/
def historyRow (historyRows : List MessageRow) (target : RunRow) (state : HistoryState)
    (row : MessageRow) : Except String HistoryState :=
  if row.id ∈ state.skippedMessageIds then .ok state
  else if row.role ≠ .user then
    .ok { state with messages := state.messages ++ [⟨row.role, [.text row.content]⟩] }
  else do
    let priorRunIds := priorRunIds target.userMessageId historyRows
    let transcript ← db.rowTranscript loads u priorRunIds target row
    let skipped :=
      if row.id ≠ target.userMessageId ∧ row.runId ≠ none ∧ transcript ≠ [] then
        materialized historyRows row
      else []
    .ok
      { messages := state.messages ++ userTurn target row transcript
        skippedMessageIds := state.skippedMessageIds ++ skipped }

/-- `_build_history`. -/
def buildHistory (historyRows : List MessageRow) (target : RunRow) :
    Except String (List Message) := do
  let state ← historyRows.foldlM (db.historyRow loads u historyRows target) ⟨[], []⟩
  .ok state.messages

/-- The visible messages up to the target message of a run. -/
def historyRows (run : RunRow) (target : MessageRow) : List MessageRow :=
  (db.visible run.conversationId).filter fun m => m.position ≤ target.position

/-- `load_conversation_history`. -/
def loadConversationHistory (runId : ℕ) : Except String (List Message) :=
  match db.runs.get? runId with
  | none => .error ("Run " ++ toString runId ++ " not found")
  | some run =>
    match db.messages.get? run.userMessageId with
    | none => .error ("Target user message " ++ toString run.userMessageId ++ " not found")
    | some target => db.buildHistory loads u (db.historyRows run target) run

/-! ### Prior sources -/

/-- The sources that the metadata of a message records. -/
def recordedSources (metadata : Json) : List Dict :=
  match metadata with
  | .obj fields =>
    match Dict.get? fields "sources" with
    | some (.arr items) => items.filterMap Json.obj?
    | _ => []
  | _ => []

/-- The visible assistant messages before the target message of a run. -/
def priorAnswers (run : RunRow) (target : MessageRow) : List MessageRow :=
  (db.visible run.conversationId).filter fun m =>
    m.position < target.position ∧ m.role = .assistant

/-- `load_prior_sources`. -/
def loadPriorSources (runId : ℕ) : Except String (List Dict) :=
  match db.runs.get? runId with
  | none => .error ("Run " ++ toString runId ++ " not found")
  | some run =>
    match db.messages.get? run.userMessageId with
    | none => .error ("Target user message " ++ toString run.userMessageId ++ " not found")
    | some target =>
      .ok ((db.priorAnswers run target).flatMap fun m => recordedSources m.metadata)

end ConversationTables

end Conversations

end IChat
