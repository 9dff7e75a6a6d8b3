import Mathlib.Data.List.Sort
import IChat.General.Json
import IChat.ModelCatalog.Records

/-!
# Selecting a model and building its provider

`services/model_catalog/service.py`, with the providers of `services/agents/registry.py`.

A chat model is read from the settings or from the tables of the catalog. A run keeps a snapshot
of the model it was created with, which has the base URL of the upstream but not its key;
`resolveRunModelRuntime` reads the key from the row of the upstream when the run is executed.
-/

namespace IChat.ModelCatalog

open Text

variable (u : Url.UnicodeData) (fernet : List Char → Option Fernet)

/-! ### Providers -/

/-- `ProviderConnection`. -/
structure ProviderConnection where
  adapter : String
  apiKey : List Char
  baseUrl : List Char
  tokenProfile : String
  defaultThinkingEnabled : Bool
  defaultReasoningEffort : String
  reasoningOutputs : List String
  deriving DecidableEq

/-- The providers of the kernel, with what they are constructed from. -/
inductive Provider
  | deepseek (apiKey baseUrl : List Char) (thinkingEnabled : Bool) (reasoningEffort : String)
  | openai (apiKey baseUrl : List Char) (reasoningOutputs : List String)
  | openrouter (apiKey baseUrl : List Char) (tokenProfile : String) (reasoningOutputs : List String)
  | glm (apiKey baseUrl : List Char)
  deriving DecidableEq

/-- The key that a provider sends. -/
def Provider.apiKey : Provider → List Char
  | deepseek apiKey _ _ _ | openai apiKey _ _ | openrouter apiKey _ _ _ | glm apiKey _ => apiKey

/-- The endpoint that a provider sends it to. -/
def Provider.baseUrl : Provider → List Char
  | deepseek _ baseUrl _ _ | openai _ baseUrl _ | openrouter _ baseUrl _ _ | glm _ baseUrl =>
      baseUrl

/-- `build_provider`. -/
def buildProvider (c : ProviderConnection) : Except CatalogError Provider :=
  if c.adapter = "deepseek" then
    .ok (.deepseek c.apiKey c.baseUrl c.defaultThinkingEnabled c.defaultReasoningEffort)
  else if c.adapter = "openai" then .ok (.openai c.apiKey c.baseUrl c.reasoningOutputs)
  else if c.adapter = "openrouter" then
    .ok (.openrouter c.apiKey c.baseUrl c.tokenProfile c.reasoningOutputs)
  else if c.adapter = "glm" then .ok (.glm c.apiKey c.baseUrl)
  else .error (.unknownProvider c.adapter)

/-- `resolve_provider`. -/
def resolveProvider (name : String) (settings : Settings) : Except CatalogError Provider :=
  if name = "deepseek" then
    buildProvider
      { adapter := "deepseek"
        apiKey := settings.deepseekApiKey
        baseUrl := settings.deepseekBaseUrl
        tokenProfile := "deepseek"
        defaultThinkingEnabled := settings.deepseekThinkingEnabled
        defaultReasoningEffort := settings.deepseekReasoningEffort
        reasoningOutputs := [] }
  else if name = "openai" then
    buildProvider
      { adapter := "openai"
        apiKey := settings.openaiApiKey
        baseUrl := settings.openaiBaseUrl
        tokenProfile := "openai"
        defaultThinkingEnabled := false
        defaultReasoningEffort := "high"
        reasoningOutputs := ["raw"] }
  else .error (.unknownProvider name)

/-! ### Chat models -/

inductive CatalogSource
  | environment | database
  deriving DecidableEq

/-- A model that can be requested. Those of the database carry their route and the ciphertext of
their upstream. -/
structure ChatModel where
  key : List Char
  label : List Char
  thinkingLevels : List String
  reasoningOutputs : List String
  supportsImageInput : Bool
  imageTokenReserve : Option ℤ
  tokenProfile : String
  providerName : String
  providerModel : List Char
  upstreamKey : List Char
  baseUrl : List Char
  source : CatalogSource
  routeId : Option ℕ
  apiKeyCiphertext : Option (List Char)

/-- `ChatModel.snapshot`. -/
def ChatModel.snapshot (model : ChatModel) : Except CatalogError (Option Json) :=
  match model.source, model.routeId with
  | .environment, _ => .ok none
  | .database, none => .error .assertion
  | .database, some routeId =>
    .ok (some (.obj
      [("version", .int 2),
        ("catalog_model", .str (String.ofList model.key)),
        ("route_id", .int routeId),
        ("upstream", .str (String.ofList model.upstreamKey)),
        ("adapter", .str model.providerName),
        ("base_url", .str (String.ofList model.baseUrl)),
        ("provider_model", .str (String.ofList model.providerModel)),
        ("thinking_levels", .arr (model.thinkingLevels.map .str)),
        ("reasoning_outputs", .arr (model.reasoningOutputs.map .str)),
        ("supports_image_input", .bool model.supportsImageInput),
        ("image_token_reserve", (model.imageTokenReserve.map Json.int).getD .null),
        ("token_profile", .str model.tokenProfile)]))

/-- `_display_label`. -/
def displayLabel (model : List Char) : List Char := (rpartition '/' model).2

/-- `_deepseek_levels`. -/
def deepseekLevels (model : List Char) : List String :=
  if "-pro".toList <:+ displayLabel model then ["high", "max"] else ["low", "high", "max"]

/-- `supports_reasoning_control` of the OpenAI provider. -/
def supportsReasoningControl (model : List Char) : Bool :=
  let base := (partition ':' (rpartition '/' model).2).1
  "gpt-5".toList <+: base ∨ "o1".toList <+: base ∨ "o3".toList <+: base ∨ "o4".toList <+: base

/-- `_openai_levels`. -/
def openaiLevels (model : List Char) : List String :=
  if supportsReasoningControl model then ["low", "medium", "high", "xhigh", "max"] else []

/-- `urlsplit(base_url).hostname == "openrouter.ai"`. -/
def isOpenrouter (baseUrl : List Char) : Except CatalogError Bool :=
  match Url.urlsplit u baseUrl with
  | none => .error .value
  | some parsed => .ok (parsed.hostname u = some "openrouter.ai".toList)

/-- The entry of `legacy_chat_models` for a DeepSeek model. -/
def deepseekChatModel (settings : Settings) (model : List Char) : ChatModel where
  key := model
  label := displayLabel model
  thinkingLevels := deepseekLevels model
  reasoningOutputs := ["raw"]
  supportsImageInput := false
  imageTokenReserve := none
  tokenProfile := "deepseek"
  providerName := "deepseek"
  providerModel := model
  upstreamKey := "deepseek-env".toList
  baseUrl := settings.deepseekBaseUrl
  source := .environment
  routeId := none
  apiKeyCiphertext := none

/-- The entry of `legacy_chat_models` for an OpenAI model. -/
def openaiChatModel (settings : Settings) (visionModels : List (List Char)) (openrouter : Bool)
    (model : List Char) : ChatModel where
  key := model
  label := displayLabel model
  thinkingLevels := openaiLevels model
  reasoningOutputs := if openrouter then ["raw"] else []
  supportsImageInput := model ∈ visionModels
  imageTokenReserve :=
    if model ∈ visionModels then some settings.openaiImageTokenReserve else none
  tokenProfile := "openai"
  providerName := "openai"
  providerModel := model
  upstreamKey := "openai-env".toList
  baseUrl := settings.openaiBaseUrl
  source := .environment
  routeId := none
  apiKeyCiphertext := none

/-- `legacy_chat_models`. -/
def legacyChatModels (settings : Settings) : Except CatalogError (List ChatModel) := do
  let models := settings.deepseekModelsList.map (deepseekChatModel settings)
  if settings.openaiAvailable then
    let visionModels ← settings.openaiVisionModelsList
    let openaiModels ← settings.openaiModelsList
    let openrouter ← isOpenrouter u settings.openaiBaseUrl
    .ok (models ++ openaiModels.map (openaiChatModel settings visionModels openrouter))
  else .ok models

/-! ### The models of the tables -/

/-- A row of the join of routes with their models and upstreams. -/
abbrev JoinedRow := ChatModelRow × ModelRoute × ModelUpstream

namespace Catalog

variable (w : Catalog)

/-- The join of routes with their upstreams. -/
def routesWithUpstream : List (ModelRoute × ModelUpstream) :=
  w.routes.rows.filterMap fun route =>
    (w.upstreams.get? route.upstreamId).map fun upstream => (route, upstream)

/-- The join of routes with their models and upstreams. -/
def joined : List JoinedRow :=
  w.routesWithUpstream.filterMap fun (route, upstream) =>
    (w.models.get? route.chatModelId).map fun model => (model, route, upstream)

end Catalog

/-- The `where` clause of `_database_chat_models`. -/
def JoinedRow.available : JoinedRow → Bool
  | (model, route, upstream) =>
    model.enabled ∧ route.enabled ∧ upstream.enabled ∧ model.archivedAt = none ∧
      route.archivedAt = none ∧ upstream.archivedAt = none

/-- The `order_by` clause of `_database_chat_models`. -/
def JoinedRow.precedes : JoinedRow → JoinedRow → Bool
  | (model, route, _), (model', route', _) =>
    model.sortOrder < model'.sortOrder ∨ model.sortOrder = model'.sortOrder ∧
      (model.id < model'.id ∨ model.id = model'.id ∧
        (route.priority < route'.priority ∨ route.priority = route'.priority ∧
          route.id ≤ route'.id))

/-- `_database_model`. -/
def databaseModel (model : ChatModelRow) (route : ModelRoute) (upstream : ModelUpstream) :
    Except CatalogError ChatModel := do
  let thinkingLevels ← validateThinkingLevels model.thinkingLevels
  let reasoningOutputs ← validateReasoningOutputs route.reasoningOutputs upstream.adapter
  if model.tokenProfile ∉ tokenProfiles then
    .error (.catalog "Chat model token profile is unsupported")
  else
    let _ ← providerAdapter upstream.adapter
    .ok
      { key := model.key
        label := model.label
        thinkingLevels := thinkingLevels
        reasoningOutputs := reasoningOutputs
        supportsImageInput := model.supportsImageInput
        imageTokenReserve := model.imageTokenReserve
        tokenProfile := model.tokenProfile
        providerName := upstream.adapter
        providerModel := route.upstreamModel
        upstreamKey := upstream.key
        baseUrl := upstream.baseUrl
        source := .database
        routeId := some route.id
        apiKeyCiphertext := some upstream.apiKeyCiphertext }

/-- The loop of `_database_chat_models`: the first route of each model. -/
def selectModels : List ℕ → List JoinedRow → Except CatalogError (List ChatModel)
  | _, [] => .ok []
  | seen, (model, route, upstream) :: rows =>
    if model.id ∈ seen then selectModels seen rows
    else do
      let entry ← databaseModel model route upstream
      let selected ← selectModels (model.id :: seen) rows
      .ok (entry :: selected)

/-- `_database_chat_models`. -/
def databaseChatModels (w : Catalog) : Except CatalogError (List ChatModel) :=
  let rows := (w.joined.filter JoinedRow.available).insertionSort fun a b => a.precedes b = true
  selectModels [] rows

/-- `available_chat_models`. -/
def availableChatModels (w : Catalog) (settings : Settings) :
    Except CatalogError (List ChatModel) :=
  if w.databaseEnabled then databaseChatModels w else legacyChatModels u settings

/-- `resolve_chat_model`. -/
def resolveChatModel (w : Catalog) (settings : Settings) (requestedModel : Option (List Char)) :
    Except CatalogError ChatModel := do
  let models ← availableChatModels u w settings
  match requestedModel with
  | none =>
    match models with
    | [] => .error (.app 503 "No chat models are available")
    | model :: _ => .ok model
  | some requested =>
    match models.find? fun entry => entry.key = requested with
    | none => .error (.app 422 "Requested model is not available")
    | some entry => .ok entry

/-- `provider_for_chat_model`. -/
def providerForChatModel (model : ChatModel) (settings : Settings) :
    Except CatalogError Provider :=
  match model.source, model.apiKeyCiphertext with
  | .environment, _ => resolveProvider model.providerName settings
  | .database, none => .error (.catalog "Model upstream credential is unavailable")
  | .database, some ciphertext => do
    let cipher ← modelCredentialCipher fernet settings.modelCatalogEncryptionKey
    let apiKey ← cipher.decryptKey ciphertext
    let adapter ← providerAdapter model.providerName
    buildProvider
      { adapter := adapter
        apiKey := apiKey
        baseUrl := model.baseUrl
        tokenProfile := model.tokenProfile
        defaultThinkingEnabled := settings.deepseekThinkingEnabled
        defaultReasoningEffort := settings.deepseekReasoningEffort
        reasoningOutputs := model.reasoningOutputs }

/-! ### Snapshots -/

/-- What `_parse_snapshot` returns. -/
structure Snapshot where
  version : ℕ
  catalogModel : List Char
  upstream : List Char
  adapter : String
  baseUrl : List Char
  providerModel : List Char
  tokenProfile : String
  routeId : ℕ
  thinkingLevels : List String
  reasoningOutputs : List String
  supportsImageInput : Bool
  imageTokenReserve : Option ℤ

/-- The error of a snapshot that lacks a field or has one of another type. -/
def invalidSnapshot : CatalogError := .catalog "Run model route snapshot is invalid"

/-- The version of a snapshot: what is equal to `1` or `2` for Python. -/
def snapshotVersion (raw : Dict) : Except CatalogError ℕ :=
  match raw.get? "version" with
  | some (.int 1) | some (.bool true) | some (.float "1.0") => .ok 1
  | some (.int 2) | some (.float "2.0") => .ok 2
  | _ => .error (.catalog "Run model route snapshot version is unsupported")

/-- A required text of a snapshot. -/
def requiredString (raw : Dict) (field : String) : Except CatalogError String :=
  match raw.get? field with
  | some (.str value) => if value = "" then .error invalidSnapshot else .ok value
  | _ => .error invalidSnapshot

/-- `route_id` of a snapshot. -/
def snapshotRouteId (raw : Dict) : Except CatalogError ℕ :=
  match raw.get? "route_id" with
  | some (.int id) => if id ≤ 0 then .error invalidSnapshot else .ok id.toNat
  | _ => .error invalidSnapshot

/-- A list of texts. -/
def textItems : Option Json → Option (List String)
  | some (.arr items) => items.mapM Json.str?
  | _ => none

/-- `_validated_thinking_levels`. -/
def validatedThinkingLevels (raw : Option Json) : Except CatalogError (List String) :=
  match textItems raw with
  | none => .error (.catalog "Chat model thinking levels are invalid")
  | some levels => validateThinkingLevels levels

/-- `_validated_reasoning_outputs`. -/
def validatedReasoningOutputs (raw : Option Json) (adapter : String) :
    Except CatalogError (List String) :=
  match textItems raw with
  | none => .error (.catalog "Model route reasoning outputs are invalid")
  | some outputs => validateReasoningOutputs outputs adapter

/-- The reasoning outputs of a snapshot: the first version did not have them. -/
def snapshotReasoningOutputs (raw : Dict) (version : ℕ) (adapter : String) :
    Except CatalogError (List String) :=
  if version = 1 then .ok (if adapter = "deepseek" then ["raw"] else [])
  else validatedReasoningOutputs (raw.get? "reasoning_outputs") adapter

/-- `image_token_reserve` of a snapshot. -/
def snapshotReserve (raw : Dict) : Except CatalogError (Option ℤ) :=
  match raw.get? "image_token_reserve" with
  | none | some .null => .ok none
  | some (.int reserve) => if reserve ≤ 0 then .error invalidSnapshot else .ok (some reserve)
  | some _ => .error invalidSnapshot

/-- `supports_image_input` and `image_token_reserve` of a snapshot. -/
def snapshotImages (raw : Dict) : Except CatalogError (Bool × Option ℤ) :=
  match raw.get? "supports_image_input" with
  | some (.bool supportsImageInput) => do
    let reserve ← snapshotReserve raw
    if supportsImageInput ≠ reserve.isSome then
      .error (.catalog "Run model route snapshot image capability is inconsistent")
    else .ok (supportsImageInput, reserve)
  | _ => .error invalidSnapshot

/-- `_parse_snapshot`. -/
def parseSnapshot (raw : Dict) : Except CatalogError Snapshot := do
  let version ← snapshotVersion raw
  let catalogModel ← requiredString raw "catalog_model"
  let upstream ← requiredString raw "upstream"
  let adapter ← requiredString raw "adapter"
  let baseUrl ← requiredString raw "base_url"
  let providerModel ← requiredString raw "provider_model"
  let tokenProfile ← requiredString raw "token_profile"
  let routeId ← snapshotRouteId raw
  let thinkingLevels ← validatedThinkingLevels (raw.get? "thinking_levels")
  let reasoningOutputs ← snapshotReasoningOutputs raw version adapter
  let images ← snapshotImages raw
  if tokenProfile ∉ tokenProfiles then
    .error (.catalog "Run model route snapshot token profile is unsupported")
  else
    let _ ← providerAdapter adapter
    .ok
      { version := version
        catalogModel := catalogModel.toList
        upstream := upstream.toList
        adapter := adapter
        baseUrl := baseUrl.toList
        providerModel := providerModel.toList
        tokenProfile := tokenProfile
        routeId := routeId
        thinkingLevels := thinkingLevels
        reasoningOutputs := reasoningOutputs
        supportsImageInput := images.1
        imageTokenReserve := images.2 }

/-! ### The runtime of a run -/

/-- The fields of a run that its runtime is resolved from. -/
structure Run where
  providerName : String
  providerModel : List Char
  modelConfigSnapshot : Option Json
  providerOptions : Option Dict

/-- `RunModelRuntime`. -/
structure RunModelRuntime where
  provider : Provider
  supportsReasoning : Bool
  reasoningOutputs : List String
  supportsImageInput : Bool
  imageTokenReserve : ℤ
  catalogModel : List Char
  deriving DecidableEq

/-- `image_token_reserve` of the provider options, when it is a number of tokens. -/
def persistedReserve (run : Run) : Option ℤ :=
  match (run.providerOptions.getD []).get? "image_token_reserve" with
  | some (.int reserve) => if 0 ≤ reserve then some reserve else none
  | _ => none

/-- `resolve_run_model_runtime` for a run without a snapshot. -/
def resolveLegacyRuntime (run : Run) (settings : Settings) :
    Except CatalogError RunModelRuntime := do
  let models ← legacyChatModels u settings
  let model := models.find? fun entry =>
    entry.providerName = run.providerName ∧ entry.providerModel = run.providerModel
  let provider ← resolveProvider run.providerName settings
  let reserve := (persistedReserve run).getD ((model.bind ChatModel.imageTokenReserve).getD 0)
  .ok
    { provider := provider
      supportsReasoning := (model.map fun entry => decide (entry.thinkingLevels ≠ [])).getD true
      reasoningOutputs := (model.map ChatModel.reasoningOutputs).getD ["raw"]
      supportsImageInput := (model.map ChatModel.supportsImageInput).getD (0 < reserve)
      imageTokenReserve := reserve
      catalogModel := run.providerModel }

/-- The upstream of a route, archived or not. -/
def Catalog.upstreamOfRoute (w : Catalog) (routeId : ℕ) : Option ModelUpstream :=
  (w.routes.get? routeId).bind fun route => w.upstreams.get? route.upstreamId

/-- `resolve_run_model_runtime` for a run with a snapshot. -/
def resolveSnapshotRuntime (w : Catalog) (run : Run) (raw : Json) (settings : Settings) :
    Except CatalogError RunModelRuntime :=
  match raw.obj? with
  | none => .error invalidSnapshot
  | some fields => do
    let snapshot ← parseSnapshot fields
    if snapshot.adapter ≠ run.providerName ∨ snapshot.providerModel ≠ run.providerModel then
      .error (.catalog "Run model route snapshot does not match persisted provider fields")
    else
      match w.upstreamOfRoute snapshot.routeId with
      | none => .error (.catalog "Run model route no longer exists")
      | some upstream =>
        if upstream.key ≠ snapshot.upstream then
          .error (.catalog "Run model route snapshot does not match its upstream")
        else do
          let cipher ← modelCredentialCipher fernet settings.modelCatalogEncryptionKey
          let adapter ← providerAdapter snapshot.adapter
          let apiKey ← cipher.decryptKey upstream.apiKeyCiphertext
          let provider ← buildProvider
            { adapter := adapter
              apiKey := apiKey
              baseUrl := snapshot.baseUrl
              tokenProfile := snapshot.tokenProfile
              defaultThinkingEnabled := settings.deepseekThinkingEnabled
              defaultReasoningEffort := settings.deepseekReasoningEffort
              reasoningOutputs := snapshot.reasoningOutputs }
          .ok
            { provider := provider
              supportsReasoning := snapshot.thinkingLevels ≠ []
              reasoningOutputs := snapshot.reasoningOutputs
              supportsImageInput := snapshot.supportsImageInput
              imageTokenReserve := snapshot.imageTokenReserve.getD 0
              catalogModel := snapshot.catalogModel }

/-- `resolve_run_model_runtime`. -/
def resolveRunModelRuntime (w : Catalog) (run : Run) (settings : Settings) :
    Except CatalogError RunModelRuntime :=
  match run.modelConfigSnapshot with
  | none => resolveLegacyRuntime u run settings
  | some raw => resolveSnapshotRuntime fernet w run raw settings

end IChat.ModelCatalog
