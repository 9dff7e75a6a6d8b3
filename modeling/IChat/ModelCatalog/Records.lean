import Mathlib.Data.Int.Notation
import IChat.General.Except
import IChat.General.Table
import IChat.General.Url

/-!
# The tables of the model catalog

The rows of `app/models/model_catalog.py`, the credential cipher, and the checks of
`management.py` on what an operator enters.

* Free texts are lists of characters. The texts that are looked up in one of the fixed tables of
  the source (adapters, token profiles, thinking levels, reasoning outputs) are strings.
* `cryptography.fernet` is a parameter: `Fernet(key)` is `none` when it rejects the key, and a
  token depends on the time and the random bytes of the encryption, which a number stands for.
-/

namespace IChat.ModelCatalog

open Text

/-- What an operation raises: a `ModelCatalogError`, its subclass for conflicts, a
`ModelCredentialError`, an `UnknownProviderError`, an `AppError` with its status, the `ValueError`
of a URL or of a list in the settings, or an `AssertionError`. -/
inductive CatalogError
  | catalog (message : String)
  | conflict (message : String)
  | credential (message : String)
  | unknownProvider (name : String)
  | app (status : ℕ) (message : String)
  | value
  | assertion
  deriving DecidableEq

/-- A row of `chat_models`. -/
structure ChatModelRow where
  id : ℕ
  key : List Char
  label : List Char
  enabled : Bool
  sortOrder : ℤ
  thinkingLevels : List String
  supportsImageInput : Bool
  imageTokenReserve : Option ℤ
  tokenProfile : String
  archivedAt : Option ℕ
  deriving DecidableEq

/-- A row of `model_upstreams`. -/
structure ModelUpstream where
  id : ℕ
  key : List Char
  label : List Char
  adapter : String
  baseUrl : List Char
  apiKeyCiphertext : List Char
  apiKeyHint : List Char
  enabled : Bool
  archivedAt : Option ℕ
  deriving DecidableEq

/-- A row of `model_routes`. -/
structure ModelRoute where
  id : ℕ
  chatModelId : ℕ
  upstreamId : ℕ
  upstreamModel : List Char
  reasoningOutputs : List String
  priority : ℤ
  enabled : Bool
  archivedAt : Option ℕ
  deriving DecidableEq

/-- The tables of the catalog, and `database_enabled` of the state row. -/
structure Catalog where
  databaseEnabled : Bool
  models : Table ChatModelRow ChatModelRow.id
  upstreams : Table ModelUpstream ModelUpstream.id
  routes : Table ModelRoute ModelRoute.id

/-- The tables after the migrations: no rows, and identities that start at one. -/
def Catalog.empty : Catalog where
  databaseEnabled := false
  models := ⟨[], 1, List.nodup_nil, fun _ h => absurd h List.not_mem_nil⟩
  upstreams := ⟨[], 1, List.nodup_nil, fun _ h => absurd h List.not_mem_nil⟩
  routes := ⟨[], 1, List.nodup_nil, fun _ h => absurd h List.not_mem_nil⟩

/-! ### Credentials -/

/-- `Fernet(key)`. The number stands for the time and the random bytes of an encryption. -/
structure Fernet where
  encrypt : ℕ → List Char → List Char
  decrypt : List Char → Option (List Char)

/-- `_CIPHERTEXT_PREFIX`. -/
def ciphertextPrefix : List Char := "fernet:v1:".toList

/-- `ModelCredentialCipher.__init__`. -/
def modelCredentialCipher (fernet : List Char → Option Fernet) (key : List Char) :
    Except CatalogError Fernet :=
  let normalized := strip key
  if normalized = [] then
    .error (.credential "Model catalog encryption key is not configured")
  else
    match fernet normalized with
    | none => .error (.credential "Model catalog encryption key is invalid")
    | some cipher => .ok cipher

/-- `ModelCredentialCipher.encrypt`. -/
def Fernet.encryptKey (cipher : Fernet) (nonce : ℕ) (apiKey : List Char) :
    Except CatalogError (List Char) :=
  let secret := strip apiKey
  if secret = [] then .error (.credential "Model upstream API key must not be empty")
  else .ok (ciphertextPrefix ++ cipher.encrypt nonce secret)

/-- `ModelCredentialCipher.decrypt`. -/
def Fernet.decryptKey (cipher : Fernet) (ciphertext : List Char) :
    Except CatalogError (List Char) :=
  if ciphertextPrefix <+: ciphertext then
    match cipher.decrypt (ciphertext.drop ciphertextPrefix.length) with
    | none => .error (.credential "Model upstream credential could not be decrypted")
    | some [] => .error (.credential "Model upstream credential is empty")
    | some plaintext => .ok plaintext
  else .error (.credential "Model upstream credential format is unsupported")

/-- `api_key_hint`. -/
def apiKeyHint (apiKey : List Char) : List Char :=
  let secret := strip apiKey
  if secret.length ≤ 4 then "configured".toList
  else Char.ofNat 0x2026 :: secret.drop (secret.length - 4)

/-! ### Checks -/

/-- `_ADAPTERS`. -/
def adapters : List String := ["deepseek", "openai", "openrouter", "glm"]

/-- `_TOKEN_PROFILES`. -/
def tokenProfiles : List String := ["default", "deepseek", "openai"]

/-- `_THINKING_LEVELS`. -/
def knownThinkingLevels : List String := ["low", "medium", "high", "xhigh", "max"]

/-- `_REASONING_OUTPUTS`. -/
def knownReasoningOutputs : List String := ["raw", "summary"]

/-- `_ADAPTER_REASONING_OUTPUTS`. -/
def adapterReasoningOutputs : List (String × List String) :=
  [("deepseek", ["raw"]), ("openai", []), ("openrouter", knownReasoningOutputs), ("glm", ["raw"])]

/-- `_validate_thinking_levels`. -/
def validateThinkingLevels (levels : List String) : Except CatalogError (List String) :=
  if ¬levels.Nodup ∨ ∃ level ∈ levels, level ∉ knownThinkingLevels then
    .error (.catalog "Chat model thinking levels are invalid")
  else .ok levels

/-- `_validate_reasoning_outputs`. -/
def validateReasoningOutputs (outputs : List String) (adapter : String) :
    Except CatalogError (List String) :=
  if ¬outputs.Nodup ∨ ∃ output ∈ outputs, output ∉ knownReasoningOutputs then
    .error (.catalog "Model route reasoning outputs are invalid")
  else
    match adapterReasoningOutputs.lookup adapter with
    | none =>
      .error (.catalog "Model route reasoning outputs are unsupported by the upstream adapter")
    | some allowed =>
      if ∃ output ∈ outputs, output ∉ allowed then
        .error (.catalog "Model route reasoning outputs are unsupported by the upstream adapter")
      else .ok outputs

/-- `_provider_adapter`. -/
def providerAdapter (value : String) : Except CatalogError String :=
  if value ∉ adapters then .error (.catalog "Model upstream adapter is unsupported") else .ok value

/-- The first character of `_KEY_PATTERN`. -/
def isKeyStart (c : Char) : Bool := c.isAlphanum

/-- The other characters of `_KEY_PATTERN`. -/
def isKeyChar (c : Char) : Bool := c.isAlphanum ∨ c ∈ ['.', '_', '/', '-']

/-- `_validate_key`. -/
def validateKey (value : List Char) (field : String) : Except CatalogError (List Char) :=
  match strip value with
  | c :: rest =>
    if isKeyStart c ∧ rest.all isKeyChar ∧ rest.length ≤ 127 then .ok (c :: rest)
    else .error (.catalog (field ++ " is invalid"))
  | [] => .error (.catalog (field ++ " is invalid"))

/-- `_required_text`. -/
def requiredText (value : List Char) (field : String) (maxLength : ℕ) :
    Except CatalogError (List Char) :=
  let normalized := strip value
  if normalized = [] then .error (.catalog (field ++ " must not be empty"))
  else if maxLength < normalized.length then .error (.catalog (field ++ " is too long"))
  else if normalized.any fun c => c.toNat < 32 ∨ c.toNat = 127 then
    .error (.catalog (field ++ " contains control characters"))
  else .ok normalized

/-- `_validate_base_url`. -/
def validateBaseUrl (u : Url.UnicodeData) (value : List Char) : Except CatalogError (List Char) :=
  let normalized := rstrip (· = '/') (strip value)
  match Url.urlsplit u normalized with
  | none => .error .value
  | some parsed =>
    if parsed.scheme ∉ ["http".toList, "https".toList] ∨ parsed.hostname u = none ∨
        (parsed.userinfo).1 ≠ none ∨ (parsed.userinfo).2 ≠ none ∨ parsed.query ≠ [] ∨
        parsed.fragment ≠ [] ∨ 2048 < normalized.length then
      .error (.catalog "Model upstream base URL is invalid")
    else .ok normalized

/-! ### Settings -/

/-- The settings that the catalog reads. -/
structure Settings where
  deepseekApiKey : List Char
  deepseekBaseUrl : List Char
  deepseekModels : List Char
  deepseekThinkingEnabled : Bool
  deepseekReasoningEffort : String
  openaiApiKey : List Char
  openaiBaseUrl : List Char
  openaiModels : List Char
  openaiVisionModels : List Char
  openaiImageTokenReserve : ℤ
  modelCatalogEncryptionKey : List Char
  filesR2EndpointUrl : List Char
  filesStagingBucket : List Char
  filesCanonicalBucket : List Char
  filesPreviewBucket : List Char
  filesPreviewApiAccessKeyId : List Char
  filesPreviewApiSecretAccessKey : List Char
  filesPreviewLlmAccessKeyId : List Char
  filesPreviewLlmSecretAccessKey : List Char

/-- `raw.split(",")`, with each item stripped. -/
def commaSeparated (raw : List Char) : List (List Char) := (raw.splitOn ',').map strip

/-- `_strict_model_list`. -/
def strictModelList (raw : List Char) (allowEmpty : Bool) :
    Except CatalogError (List (List Char)) :=
  if strip raw = [] then if allowEmpty then .ok [] else .error .value
  else
    let values := commaSeparated raw
    if [] ∈ values ∨ ¬values.Nodup then .error .value else .ok values

namespace Settings

variable (settings : Settings)

/-- `openai_available`. -/
def openaiAvailable : Bool := strip settings.openaiApiKey ≠ []

/-- `openai_models_list`. -/
def openaiModelsList : Except CatalogError (List (List Char)) :=
  strictModelList settings.openaiModels false

/-- `openai_vision_models_list`. -/
def openaiVisionModelsList : Except CatalogError (List (List Char)) :=
  strictModelList settings.openaiVisionModels true

/-- `deepseek_models_list`. -/
def deepseekModelsList : List (List Char) :=
  (commaSeparated settings.deepseekModels).filter (· ≠ [])

end Settings

/-- `_validate_vision_runtime`. -/
def validateVisionRuntime (settings : Settings) : Except CatalogError Unit :=
  let configured (values : List (List Char)) : Bool := values.all fun value => strip value ≠ []
  let apiCredentials := configured
    [settings.filesPreviewApiAccessKeyId, settings.filesPreviewApiSecretAccessKey]
  let workerCredentials := configured
    [settings.filesPreviewLlmAccessKeyId, settings.filesPreviewLlmSecretAccessKey]
  if ¬configured [settings.filesR2EndpointUrl, settings.filesPreviewBucket] ∨
      ¬(apiCredentials ∨ workerCredentials) then
    .error (.catalog "Vision model runtime credentials are not configured for this process role")
  else if strip settings.filesPreviewBucket ∈
      [strip settings.filesStagingBucket, strip settings.filesCanonicalBucket] then
    .error (.catalog "Vision preview bucket must be isolated from source buckets")
  else .ok ()

end IChat.ModelCatalog
