import Mathlib.Data.Char
import Mathlib.Data.List.Lex
import IChat.ModelCatalog.Service

/-!
# Managing the catalog

The operations of `services/model_catalog/management.py`. Each is a transaction of its own: it
returns the row it wrote and the tables, or it raises and the tables stay as they are
(`transact`).

An archiving operation takes the time that it reads from the clock as an argument.
-/

namespace IChat.ModelCatalog

open Text

variable (u : Url.UnicodeData) (fernet : List Char → Option Fernet)

/-! ### Lookups -/

namespace Catalog

variable (w : Catalog)

/-- The unarchived model with a key. -/
def activeModel? (key : List Char) : Option ChatModelRow :=
  w.models.rows.find? fun model => model.key = key ∧ model.archivedAt = none

/-- The unarchived upstream with a key. -/
def activeUpstream? (key : List Char) : Option ModelUpstream :=
  w.upstreams.rows.find? fun upstream => upstream.key = key ∧ upstream.archivedAt = none

/-- The unarchived route of a model to an upstream and a model there. -/
def activeRoute? (chatModelId upstreamId : ℕ) (upstreamModel : List Char) : Option ModelRoute :=
  w.routes.rows.find? fun route =>
    route.chatModelId = chatModelId ∧ route.upstreamId = upstreamId ∧
      route.upstreamModel = upstreamModel ∧ route.archivedAt = none

/-- The unarchived routes to an upstream. -/
def activeRoutesTo (upstreamId : ℕ) : List ModelRoute :=
  w.routes.rows.filter fun route => route.upstreamId = upstreamId ∧ route.archivedAt = none

/-- `_chat_model_by_key`. -/
def chatModelByKey (key : List Char) : Except CatalogError ChatModelRow := do
  let key ← validateKey key "Chat model key"
  match w.activeModel? key with
  | none => .error (.catalog "Chat model does not exist")
  | some model => .ok model

/-- `_upstream_by_key`. -/
def upstreamByKey (key : List Char) : Except CatalogError ModelUpstream := do
  let key ← validateKey key "Model upstream key"
  match w.activeUpstream? key with
  | none => .error (.catalog "Model upstream does not exist")
  | some upstream => .ok upstream

/-- `_active_route`, with the upstream of the route. -/
def activeRoute (modelKey upstreamKey upstreamModel : List Char) :
    Except CatalogError (ModelRoute × ModelUpstream) := do
  let model ← w.chatModelByKey modelKey
  let upstream ← w.upstreamByKey upstreamKey
  let remoteModel ← requiredText upstreamModel "Upstream model id" 256
  match w.activeRoute? model.id upstream.id remoteModel with
  | none => .error (.catalog "Model route does not exist")
  | some route => .ok (route, upstream)

end Catalog

/-- The check of the outputs of some routes against one adapter. -/
def validateRoutes (routes : List ModelRoute) (adapter : String) :
    Except CatalogError (List (List String)) :=
  routes.mapM fun route => validateReasoningOutputs route.reasoningOutputs adapter

/-! ### Upserts -/

/-- The arguments of `upsert_chat_model`. -/
structure ChatModelInput where
  key : List Char
  label : List Char
  thinkingLevels : List String
  supportsImageInput : Bool
  imageTokenReserve : Option ℤ
  tokenProfile : String
  sortOrder : ℤ
  enabled : Option Bool
  settings : Option Settings

/-- The reserve of `upsert_chat_model`: a model without images has none. -/
def imageReserve (input : ChatModelInput) : Except CatalogError (Option ℤ) :=
  if input.supportsImageInput then
    match input.imageTokenReserve with
    | none => .error (.catalog "Vision chat models require a positive image token reserve")
    | some reserve =>
      if reserve ≤ 0 then
        .error (.catalog "Vision chat models require a positive image token reserve")
      else do
        match input.settings with
        | none => .ok (some reserve)
        | some settings =>
          validateVisionRuntime settings
          .ok (some reserve)
  else .ok none

/-- `ChatModel(key=key, enabled=False)`, with the defaults of the columns. -/
def ChatModelRow.new (key : List Char) (id : ℕ) : ChatModelRow where
  id := id
  key := key
  label := []
  enabled := false
  sortOrder := 100
  thinkingLevels := []
  supportsImageInput := false
  imageTokenReserve := none
  tokenProfile := "default"
  archivedAt := none

/-- The assignments of `upsert_chat_model`. -/
def ChatModelRow.written (input : ChatModelInput) (label : List Char) (levels : List String)
    (reserve : Option ℤ) (row : ChatModelRow) : ChatModelRow :=
  { row with
    label := label
    thinkingLevels := levels
    supportsImageInput := input.supportsImageInput
    imageTokenReserve := reserve
    tokenProfile := input.tokenProfile
    sortOrder := input.sortOrder
    enabled := input.enabled.getD row.enabled }

/-- `upsert_chat_model`. -/
def upsertChatModel (w : Catalog) (input : ChatModelInput) :
    Except CatalogError (ChatModelRow × Catalog) := do
  let key ← validateKey input.key "Chat model key"
  let label ← requiredText input.label "Chat model label" 128
  let levels ← validateThinkingLevels input.thinkingLevels
  if input.tokenProfile ∉ tokenProfiles then
    .error (.catalog "Chat model token profile is unsupported")
  else if input.sortOrder < 0 then
    .error (.catalog "Chat model sort order must be non-negative")
  else do
    let reserve ← imageReserve input
    let write := ChatModelRow.written input label levels reserve
    match w.activeModel? key with
    | none =>
      .ok (write (.new key w.models.next),
        { w with models := w.models.insert (fun id => write (.new key id)) fun _ => rfl })
    | some model => .ok (write model, { w with models := w.models.set (write model) })

/-- The arguments of `upsert_model_upstream`, with the randomness of the encryption. -/
structure ModelUpstreamInput where
  key : List Char
  label : List Char
  adapter : String
  baseUrl : List Char
  apiKey : Option (List Char)
  settings : Settings
  enabled : Option Bool
  nonce : ℕ

/-- The ciphertext and the hint of a new key, if there is one. -/
def newCredential (input : ModelUpstreamInput) :
    Except CatalogError (Option (List Char × List Char)) :=
  match input.apiKey with
  | none => .ok none
  | some apiKey => do
    let cipher ← modelCredentialCipher fernet input.settings.modelCatalogEncryptionKey
    let ciphertext ← cipher.encryptKey input.nonce apiKey
    .ok (some (ciphertext, apiKeyHint apiKey))

/-- `ModelUpstream(key=key, enabled=False)`: the other columns are assigned before the flush. -/
def ModelUpstream.new (key : List Char) (id : ℕ) : ModelUpstream where
  id := id
  key := key
  label := []
  adapter := ""
  baseUrl := []
  apiKeyCiphertext := []
  apiKeyHint := []
  enabled := false
  archivedAt := none

/-- The assignments of `upsert_model_upstream`. -/
def ModelUpstream.written (input : ModelUpstreamInput) (label baseUrl : List Char)
    (credential : Option (List Char × List Char)) (row : ModelUpstream) : ModelUpstream :=
  { row with
    label := label
    adapter := input.adapter
    baseUrl := baseUrl
    apiKeyCiphertext := (credential.map Prod.fst).getD row.apiKeyCiphertext
    apiKeyHint := (credential.map Prod.snd).getD row.apiKeyHint
    enabled := input.enabled.getD row.enabled }

/-- `upsert_model_upstream`. -/
def upsertModelUpstream (w : Catalog) (input : ModelUpstreamInput) :
    Except CatalogError (ModelUpstream × Catalog) := do
  let key ← validateKey input.key "Model upstream key"
  let label ← requiredText input.label "Model upstream label" 128
  if input.adapter ∉ adapters then
    .error (.catalog "Model upstream adapter is unsupported")
  else do
    let baseUrl ← validateBaseUrl u input.baseUrl
    match w.activeUpstream? key with
    | none =>
      if input.apiKey = none then .error (.catalog "A new model upstream requires an API key")
      else do
        let credential ← newCredential fernet input
        let write := ModelUpstream.written input label baseUrl credential
        .ok (write (.new key w.upstreams.next),
          { w with upstreams := w.upstreams.insert (fun id => write (.new key id)) fun _ => rfl })
    | some upstream =>
      -- the routes that exist must stay valid under the new adapter
      let _ ← validateRoutes (w.activeRoutesTo upstream.id) input.adapter
      let credential ← newCredential fernet input
      let upstream := ModelUpstream.written input label baseUrl credential upstream
      .ok (upstream, { w with upstreams := w.upstreams.set upstream })

/-- The arguments of `upsert_model_route`. -/
structure ModelRouteInput where
  modelKey : List Char
  upstreamKey : List Char
  upstreamModel : List Char
  priority : ℤ
  reasoningOutputs : Option (List String)
  enabled : Option Bool

/-- The new route of `upsert_model_route`. -/
def ModelRoute.new (chatModelId upstreamId : ℕ) (upstreamModel : List Char) (id : ℕ) :
    ModelRoute where
  id := id
  chatModelId := chatModelId
  upstreamId := upstreamId
  upstreamModel := upstreamModel
  reasoningOutputs := []
  priority := 100
  enabled := false
  archivedAt := none

/-- The assignments of `upsert_model_route`. -/
def ModelRoute.written (input : ModelRouteInput) (outputs : List String) (row : ModelRoute) :
    ModelRoute :=
  { row with
    priority := input.priority
    reasoningOutputs := outputs
    enabled := input.enabled.getD row.enabled }

/-- The outputs of a route when none are given: those it has, or those of its adapter. -/
def defaultOutputs (route : Option ModelRoute) (adapter : String) : List String :=
  match route with
  | some route => route.reasoningOutputs
  | none => if adapter ∈ ["deepseek", "glm"] then ["raw"] else []

/-- `upsert_model_route`. -/
def upsertModelRoute (w : Catalog) (input : ModelRouteInput) :
    Except CatalogError (ModelRoute × Catalog) :=
  if input.priority < 0 then .error (.catalog "Model route priority must be non-negative")
  else do
    let model ← w.chatModelByKey input.modelKey
    let upstream ← w.upstreamByKey input.upstreamKey
    let remoteModel ← requiredText input.upstreamModel "Upstream model id" 256
    let route := w.activeRoute? model.id upstream.id remoteModel
    let outputs ← validateReasoningOutputs
      (input.reasoningOutputs.getD (defaultOutputs route upstream.adapter)) upstream.adapter
    let write := ModelRoute.written input outputs
    match route with
    | none =>
      let new := ModelRoute.new model.id upstream.id remoteModel
      .ok (write (new w.routes.next),
        { w with routes := w.routes.insert (fun id => write (new id)) fun _ => rfl })
    | some route => .ok (write route, { w with routes := w.routes.set (write route) })

/-! ### Switches -/

/-- `set_chat_model_enabled`. -/
def setChatModelEnabled (w : Catalog) (key : List Char) (enabled : Bool) :
    Except CatalogError (ChatModelRow × Catalog) := do
  let model ← w.chatModelByKey key
  let model := { model with enabled := enabled }
  .ok (model, { w with models := w.models.set model })

/-- `set_model_upstream_enabled`. -/
def setModelUpstreamEnabled (w : Catalog) (key : List Char) (enabled : Bool) :
    Except CatalogError (ModelUpstream × Catalog) := do
  let upstream ← w.upstreamByKey key
  let routes := if enabled then w.activeRoutesTo upstream.id else []
  let _ ← validateRoutes routes upstream.adapter
  let upstream := { upstream with enabled := enabled }
  .ok (upstream, { w with upstreams := w.upstreams.set upstream })

/-- `set_model_route_enabled`. -/
def setModelRouteEnabled (w : Catalog) (modelKey upstreamKey upstreamModel : List Char)
    (enabled : Bool) : Except CatalogError (ModelRoute × Catalog) := do
  let (route, upstream) ← w.activeRoute modelKey upstreamKey upstreamModel
  let _ ← validateRoutes (if enabled then [route] else []) upstream.adapter
  let route := { route with enabled := enabled }
  .ok (route, { w with routes := w.routes.set route })

/-- `_validate_active_routes`. -/
def validateActiveRoutes (w : Catalog) (settings : Settings) : Except CatalogError Unit := do
  let cipher ← modelCredentialCipher fernet settings.modelCatalogEncryptionKey
  (w.joined.filter JoinedRow.available).forM fun (_, route, upstream) => do
    let _ ← validateBaseUrl u upstream.baseUrl
    let _ ← cipher.decryptKey upstream.apiKeyCiphertext
    let _ ← validateReasoningOutputs route.reasoningOutputs upstream.adapter
    .ok ()

/-- `set_database_catalog_enabled`. -/
def setDatabaseCatalogEnabled (w : Catalog) (enabled : Bool) (settings : Settings) :
    Except CatalogError Catalog := do
  if enabled then
    let models ← databaseChatModels w
    if models = [] then
      .error (.catalog "Database model catalog has no available chat model routes")
    else do
      validateActiveRoutes u fernet w settings
      models.forM fun model => do
        let _ ← providerForChatModel fernet model settings
        if model.supportsImageInput then validateVisionRuntime settings else .ok ()
      .ok { w with databaseEnabled := true }
  else .ok { w with databaseEnabled := false }

/-! ### Archiving -/

/-- The loop of `archive_chat_model`, at one route: those of the model are archived with it. -/
def ModelRoute.archivedWith (chatModelId now : ℕ) (route : ModelRoute) : ModelRoute :=
  { route with
    archivedAt :=
      if route.chatModelId = chatModelId ∧ route.archivedAt = none then some now
      else route.archivedAt }

/-- The writes of `archive_chat_model`. -/
def Catalog.modelArchived (w : Catalog) (model : ChatModelRow) (now : ℕ) : Catalog :=
  { w with
    models := w.models.set { model with archivedAt := some now }
    routes := w.routes.map (ModelRoute.archivedWith model.id now) fun _ => rfl }

/-- `archive_chat_model`. -/
def archiveChatModel (w : Catalog) (key : List Char) (now : ℕ) :
    Except CatalogError (ChatModelRow × Catalog) := do
  let model ← w.chatModelByKey key
  .ok ({ model with archivedAt := some now }, w.modelArchived model now)

/-- The unarchived routes to an upstream, as the conflict of `archive_model_upstream` names
them. -/
def blockingRoutes (w : Catalog) (upstream : ModelUpstream) : List (List Char) :=
  let blocking := (w.activeRoutesTo upstream.id).filterMap fun route =>
    (w.models.get? route.chatModelId).map fun model => (model.key, route.upstreamModel)
  let sorted := blocking.insertionSort fun a b => a.1 < b.1 ∨ a.1 = b.1 ∧ a.2 ≤ b.2
  let arrow := " -> ".toList
  sorted.map fun (modelKey, remoteModel) => modelKey ++ arrow ++ upstream.key ++
    arrow ++ remoteModel

/-- `archive_model_upstream`. -/
def archiveModelUpstream (w : Catalog) (key : List Char) (now : ℕ) :
    Except CatalogError (ModelUpstream × Catalog) := do
  let upstream ← w.upstreamByKey key
  match blockingRoutes w upstream with
  | [] =>
    let upstream := { upstream with archivedAt := some now }
    .ok (upstream, { w with upstreams := w.upstreams.set upstream })
  | blocking =>
    let routes := String.ofList ((", ".toList).intercalate blocking)
    .error (.conflict ("Model upstream is still used by unarchived routes: " ++ routes))

/-- `archive_model_route`. -/
def archiveModelRoute (w : Catalog) (modelKey upstreamKey upstreamModel : List Char) (now : ℕ) :
    Except CatalogError (ModelRoute × Catalog) := do
  let (route, _) ← w.activeRoute modelKey upstreamKey upstreamModel
  let route := { route with archivedAt := some now }
  .ok (route, { w with routes := w.routes.set route })

/-! ### Restoring -/

/-- A row of the catalog. -/
inductive CatalogRow
  | chatModel (row : ChatModelRow)
  | upstream (row : ModelUpstream)
  | route (row : ModelRoute)

/-- The tables that a reference can name a row of. -/
inductive RefKind
  | model | upstream | route
  deriving DecidableEq

/-- `[1-9][0-9]{0,18}`. -/
def refNumber : List Char → Option ℕ
  | [] => none
  | c :: digits =>
    if c ≠ '0' ∧ (c :: digits).all Char.isDigit ∧ digits.length ≤ 18 then
      some ((c :: digits).foldl (fun n d => 10 * n + (d.toNat - '0'.toNat)) 0)
    else none

/-- `_REF_PATTERN`. -/
def parseRef (ref : List Char) : Option (RefKind × ℕ) :=
  match partition '-' (strip ref) with
  | (_, none) => none
  | (kind, some digits) =>
    if kind = "model".toList then (refNumber digits).map (RefKind.model, ·)
    else if kind = "upstream".toList then (refNumber digits).map (RefKind.upstream, ·)
    else if kind = "route".toList then (refNumber digits).map (RefKind.route, ·)
    else none

/-- `_require_archived`. -/
def requireArchived (archivedAt : Option ℕ) : Except CatalogError ℕ :=
  match archivedAt with
  | none => .error (.conflict "Catalog item is not archived")
  | some archivedAt => .ok archivedAt

/-- The routes that `_restore_chat_model` brings back, with their upstreams. -/
def Catalog.batch (w : Catalog) (chatModelId archivedAt : ℕ) : List (ModelRoute × ModelUpstream) :=
  w.routesWithUpstream.filter fun (route, upstream) =>
    route.chatModelId = chatModelId ∧ route.archivedAt = some archivedAt ∧
      upstream.archivedAt = none

/-- The loop of `_restore_chat_model`, at one route: those of the batch are restored. -/
def ModelRoute.restoredWith (batch : List (ModelRoute × ModelUpstream)) (route : ModelRoute) :
    ModelRoute :=
  { route with
    archivedAt := if route.id ∈ batch.map fun row => row.1.id then none else route.archivedAt }

/-- The writes of `_restore_chat_model`. -/
def Catalog.modelRestored (w : Catalog) (model : ChatModelRow) (archivedAt : ℕ) : Catalog :=
  { w with
    models := w.models.set { model with archivedAt := none }
    routes := w.routes.map (ModelRoute.restoredWith (w.batch model.id archivedAt)) fun _ => rfl }

/-- `_restore_chat_model`. -/
def restoreChatModel (w : Catalog) (model : ChatModelRow) :
    Except CatalogError (ChatModelRow × Catalog) := do
  let archivedAt ← requireArchived model.archivedAt
  if (w.activeModel? model.key).isSome then
    .error (.conflict "An active chat model with the same key already exists")
  else do
    let _ ← (w.batch model.id archivedAt).mapM fun (route, upstream) =>
      validateReasoningOutputs route.reasoningOutputs upstream.adapter
    .ok ({ model with archivedAt := none }, w.modelRestored model archivedAt)

/-- The branch of `restore_archived` for an upstream. -/
def restoreModelUpstream (w : Catalog) (upstream : ModelUpstream) :
    Except CatalogError (ModelUpstream × Catalog) := do
  let _ ← requireArchived upstream.archivedAt
  if (w.activeUpstream? upstream.key).isSome then
    .error (.conflict "An active model upstream with the same key already exists")
  else
    let upstream := { upstream with archivedAt := none }
    .ok (upstream, { w with upstreams := w.upstreams.set upstream })

/-- The branch of `restore_archived` for a route. -/
def restoreModelRoute (w : Catalog) (route : ModelRoute) :
    Except CatalogError (ModelRoute × Catalog) := do
  let _ ← requireArchived route.archivedAt
  match w.models.get? route.chatModelId, w.upstreams.get? route.upstreamId with
  | some model, some upstream =>
    if model.archivedAt ≠ none ∨ upstream.archivedAt ≠ none then
      .error (.conflict "Restore the route's chat model and upstream before the route")
    else if (w.activeRoute? route.chatModelId route.upstreamId route.upstreamModel).isSome then
      .error (.conflict "An active model route with the same target already exists")
    else do
      let _ ← validateReasoningOutputs route.reasoningOutputs upstream.adapter
      let route := { route with archivedAt := none }
      .ok (route, { w with routes := w.routes.set route })
  | _, _ => .error .assertion

/-- `restore_archived`. -/
def restoreArchived (w : Catalog) (ref : List Char) : Except CatalogError (CatalogRow × Catalog) :=
  match parseRef ref with
  | none => .error (.catalog "Catalog item reference is invalid")
  | some (.model, id) =>
    match w.models.get? id with
    | none => .error (.catalog "Catalog item does not exist")
    | some model => (restoreChatModel w model).map fun (row, w) => (.chatModel row, w)
  | some (.upstream, id) =>
    match w.upstreams.get? id with
    | none => .error (.catalog "Catalog item does not exist")
    | some upstream => (restoreModelUpstream w upstream).map fun (row, w) => (.upstream row, w)
  | some (.route, id) =>
    match w.routes.get? id with
    | none => .error (.catalog "Catalog item does not exist")
    | some route => (restoreModelRoute w route).map fun (row, w) => (.route row, w)

/-! ### The import of the environment -/

/-- One round of the loops of `import_environment_catalog`: a model and its route. -/
def importModel (settings : Settings) (upstreamKey : List Char) (outputs : List String)
    (w : Catalog) (model : ChatModel) (sortOrder : ℕ) : Except CatalogError Catalog := do
  let (_, w) ← upsertChatModel w
    { key := model.key
      label := model.label
      thinkingLevels := model.thinkingLevels
      supportsImageInput := model.supportsImageInput
      imageTokenReserve := model.imageTokenReserve
      tokenProfile := model.tokenProfile
      sortOrder := sortOrder
      enabled := some true
      settings := some settings }
  let (_, w) ← upsertModelRoute w
    { modelKey := model.key
      upstreamKey := upstreamKey
      upstreamModel := model.providerModel
      priority := 0
      reasoningOutputs := some outputs
      enabled := some true }
  .ok w

/-- The token profile and the thinking levels of an imported OpenAI model. -/
def importedOpenai (model : ChatModel) : ChatModel :=
  if "deepseek/".toList <+: model.providerModel then
    { model with tokenProfile := "deepseek", thinkingLevels := ["low", "high", "max"] }
  else { model with tokenProfile := "openai" }

/-- The entries of `legacy_chat_models` of one provider, each with its index. -/
def legacyEntries (models : List ChatModel) (providerName : String) : List (ChatModel × ℕ) :=
  (models.filter fun entry => entry.providerName = providerName).zipIdx

/-- `import_environment_catalog`, with the randomness of its two encryptions. -/
def importEnvironmentCatalog (w : Catalog) (settings : Settings) (nonce nonce' : ℕ) :
    Except CatalogError Catalog := do
  let _ ← modelCredentialCipher fernet settings.modelCatalogEncryptionKey
  let deepseekKey := "deepseek-official".toList
  let (_, w) ← upsertModelUpstream u fernet w
    { key := deepseekKey
      label := "DeepSeek Official".toList
      adapter := "deepseek"
      baseUrl := settings.deepseekBaseUrl
      apiKey := some settings.deepseekApiKey
      settings := settings
      enabled := some true
      nonce := nonce }
  let models ← legacyChatModels u settings
  let w ← (legacyEntries models "deepseek").foldlM (fun w entry =>
    importModel settings deepseekKey ["raw"] w entry.1 entry.2) w
  if settings.openaiAvailable then
    let openrouter ← isOpenrouter u settings.openaiBaseUrl
    let upstreamKey := if openrouter then "openrouter".toList else "openai-official".toList
    let (_, w) ← upsertModelUpstream u fernet w
      { key := upstreamKey
        label := if openrouter then "OpenRouter".toList else "OpenAI Official".toList
        adapter := if openrouter then "openrouter" else "openai"
        baseUrl := settings.openaiBaseUrl
        apiKey := some settings.openaiApiKey
        settings := settings
        enabled := some true
        nonce := nonce' }
    let offset := settings.deepseekModelsList.length
    (legacyEntries models "openai").foldlM (fun w entry =>
      importModel settings upstreamKey (if openrouter then ["raw"] else []) w
        (importedOpenai entry.1) (offset + entry.2)) w
  else .ok w

/-! ### Transactions -/

/-- A request of an operator. -/
inductive Op
  | upsertChatModel (input : ChatModelInput)
  | upsertModelUpstream (input : ModelUpstreamInput)
  | upsertModelRoute (input : ModelRouteInput)
  | setChatModelEnabled (key : List Char) (enabled : Bool)
  | setModelUpstreamEnabled (key : List Char) (enabled : Bool)
  | setModelRouteEnabled (modelKey upstreamKey upstreamModel : List Char) (enabled : Bool)
  | setDatabaseCatalogEnabled (enabled : Bool) (settings : Settings)
  | archiveChatModel (key : List Char) (now : ℕ)
  | archiveModelUpstream (key : List Char) (now : ℕ)
  | archiveModelRoute (modelKey upstreamKey upstreamModel : List Char) (now : ℕ)
  | restoreArchived (ref : List Char)
  | importEnvironmentCatalog (settings : Settings) (nonce nonce' : ℕ)

/-- What a request does to the tables. -/
def perform (w : Catalog) : Op → Except CatalogError Catalog
  | .upsertChatModel input => (upsertChatModel w input).map Prod.snd
  | .upsertModelUpstream input => (upsertModelUpstream u fernet w input).map Prod.snd
  | .upsertModelRoute input => (upsertModelRoute w input).map Prod.snd
  | .setChatModelEnabled key enabled => (setChatModelEnabled w key enabled).map Prod.snd
  | .setModelUpstreamEnabled key enabled => (setModelUpstreamEnabled w key enabled).map Prod.snd
  | .setModelRouteEnabled modelKey upstreamKey upstreamModel enabled =>
    (setModelRouteEnabled w modelKey upstreamKey upstreamModel enabled).map Prod.snd
  | .setDatabaseCatalogEnabled enabled settings =>
    setDatabaseCatalogEnabled u fernet w enabled settings
  | .archiveChatModel key now => (archiveChatModel w key now).map Prod.snd
  | .archiveModelUpstream key now => (archiveModelUpstream w key now).map Prod.snd
  | .archiveModelRoute modelKey upstreamKey upstreamModel now =>
    (archiveModelRoute w modelKey upstreamKey upstreamModel now).map Prod.snd
  | .restoreArchived ref => (restoreArchived w ref).map Prod.snd
  | .importEnvironmentCatalog settings nonce nonce' =>
    importEnvironmentCatalog u fernet w settings nonce nonce'

/-- The time that an archiving request writes. -/
def Op.stamp : Op → Option ℕ
  | .archiveChatModel _ now | .archiveModelUpstream _ now | .archiveModelRoute _ _ _ now => some now
  | _ => none

end IChat.ModelCatalog
