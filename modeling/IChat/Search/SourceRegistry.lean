import IChat.General.Json
import IChat.General.Url

/-!
# The registry of search sources

`SourceRegistry` of `postprocess.py` numbers the search sources of a run within the citation space
of its conversation. It is restored from the sources on earlier visible messages: a URL that is
known there keeps its id, and new ids continue after the highest one. An id with several URLs is
ambiguous and dropped.

URLs are compared in a normal form (`normalizeUrl`), which `urlparse` may refuse to give: then
`restore` and `register` raise. `register` leaves what it has registered before.
-/

namespace IChat.Search

open Url

/-- `SearchResult`. -/
structure SearchResult where
  title : String
  url : String
  snippet : String
  publishedAt : Option String
  provider : String
  deriving DecidableEq

/-- `ExtractResult`. -/
structure ExtractResult where
  url : String
  content : String
  title : Option String
  deriving DecidableEq

/-- `SourceRecord`. -/
structure SourceRecord where
  id : ℕ
  title : String
  url : String
  snippet : String
  publishedAt : Option String
  provider : String
  extracted : Bool
  deriving DecidableEq

/-- `SourceRecord.metadata`. -/
def SourceRecord.metadata (record : SourceRecord) : Dict :=
  [("id", .int record.id), ("title", .str record.title), ("url", .str record.url),
    ("snippet", .str record.snippet), ("published_at", record.publishedAt.elim .null .str),
    ("provider", .str record.provider)]

/-- A text under a key, or the default for another value. -/
def textOf (item : Dict) (key default : String) : String :=
  match item.get? key with
  | some (.str text) => text
  | _ => default

/-- `_record_from_metadata`. -/
def recordFromMetadata (item : Dict) : Option SourceRecord :=
  match item.get? "id", item.get? "url" with
  | some (.int id), some (.str url) =>
    if id ≤ 0 ∨ url = "" then none
    else some
      { id := id.toNat
        title := if textOf item "title" "" = "" then url else textOf item "title" ""
        url
        snippet := textOf item "snippet" ""
        publishedAt := match item.get? "published_at" with
          | some (.str text) => some text
          | _ => none
        provider := textOf item "provider" ""
        extracted := false }
  | _, _ => none

/-- `_squeeze`. -/
def squeeze (text : List Char) (maxChars : ℕ) : String :=
  let compact := [' '].intercalate (Text.words text)
  if compact.length ≤ maxChars then String.ofList compact
  else String.ofList (Text.rstrip Text.isSpace (compact.take (maxChars - 1)) ++ ['…'])

/-- `SourceRegistry`. The records of the run stand in the order of their registration, each under
the normal form of its URL. -/
structure SourceRegistry where
  byUrl : List (String × SourceRecord)
  priorById : List (ℕ × SourceRecord)
  nextId : ℕ
  deriving DecidableEq

section registry

variable (u : UnicodeData)

/-- `_normalize_url`. -/
def normalizeUrl (url : String) : Option String := do
  let parsed ← urlparse u (Text.strip url.toList)
  let scheme := if u.lower parsed.scheme = [] then "https".toList else u.lower parsed.scheme
  let netloc := u.lower parsed.netloc
  let path := Text.rstrip (· = '/') parsed.path
  let query := if parsed.query = [] then [] else '?' :: parsed.query
  some (String.ofList (scheme ++ "://".toList ++ netloc ++ path ++ query))

/-! ### Restoring -/

/-- What `SourceRegistry.__init__` collects. -/
structure PriorSources where
  byId : List (ℕ × SourceRecord)
  ambiguous : List ℕ
  maxId : ℕ

/-- The body of the loop of `SourceRegistry.__init__`. -/
def addPrior (prior : PriorSources) (item : Dict) : Option PriorSources :=
  match recordFromMetadata item with
  | none => some prior
  | some record => do
    let maxId := max prior.maxId record.id
    let (byId, existing) := match prior.byId.lookup record.id with
      | some existing => (prior.byId, existing)
      | none => (prior.byId ++ [(record.id, record)], record)
    let existingUrl ← normalizeUrl u existing.url
    let recordUrl ← normalizeUrl u record.url
    some
      { byId
        ambiguous := if existingUrl ≠ recordUrl then record.id :: prior.ambiguous else
          prior.ambiguous
        maxId }

/-- `SourceRegistry.__init__`. -/
def SourceRegistry.restore (prior : List Dict) : Option SourceRegistry := do
  let collected ← prior.foldlM (addPrior u) ⟨[], [], 0⟩
  some
    { byUrl := []
      priorById := collected.byId.filter fun entry => entry.1 ∉ collected.ambiguous
      nextId := collected.maxId + 1 }

/-! ### Registering -/

namespace SourceRegistry

variable (registry : SourceRegistry)

/-- `_prior_by_url`: the first record of the prior ones with the URL. -/
def priorByUrl (key : String) : Option SourceRecord :=
  (registry.priorById.map Prod.snd).find? fun record => normalizeUrl u record.url = some key

/-- An existing record takes over the extracted text of its page. -/
def upgrade (record : SourceRecord) (extract : Option ExtractResult) (maxSourceChars : ℕ) :
    SourceRecord :=
  match extract with
  | none => record
  | some extract =>
    if Text.strip extract.content.toList = [] ∨ record.extracted then record
    else { record with
      snippet := squeeze extract.content.toList maxSourceChars
      title := match extract.title with
        | none | some "" => record.title
        | some title => title
      extracted := true }

/-- The record of a new source. -/
def newRecord (id : ℕ) (result : SearchResult) (extract : Option ExtractResult)
    (maxSourceChars : ℕ) : SourceRecord :=
  let title := match extract.bind ExtractResult.title with
    | none | some "" => result.title
    | some title => title
  { id
    title := if title = "" then result.url else title
    url := result.url
    snippet := squeeze (extract.elim result.snippet ExtractResult.content).toList maxSourceChars
    publishedAt := result.publishedAt
    provider := result.provider
    extracted := extract.isSome }

/-- The body of the loop of `register`, for a result whose URL has the normal form `key`. -/
def registerResult (extracts : List (String × ExtractResult)) (maxSourceChars : ℕ)
    (result : SearchResult) (key : String) : SourceRegistry :=
  -- a dictionary keeps the last value of a key
  let extract := extracts.reverse.lookup key
  match registry.byUrl.lookup key with
  | some _ =>
    { registry with
      byUrl := registry.byUrl.map fun entry =>
        if entry.1 = key then (key, upgrade entry.2 extract maxSourceChars) else entry }
  | none =>
    match registry.priorByUrl u key with
    | some prior =>
      { registry with
        byUrl := registry.byUrl ++ [(key, newRecord prior.id result extract maxSourceChars)] }
    | none =>
      { registry with
        byUrl := registry.byUrl ++
          [(key, newRecord registry.nextId result extract maxSourceChars)]
        nextId := registry.nextId + 1 }

/-- The loop of `register`, which ends at a URL without a normal form. -/
def registerResults (extracts : List (String × ExtractResult)) (maxSourceChars : ℕ) :
    SourceRegistry → List SearchResult → SourceRegistry
  | registry, [] => registry
  | registry, result :: results =>
    match normalizeUrl u result.url with
    | none => registry
    | some key =>
      registerResults extracts maxSourceChars
        (registry.registerResult u extracts maxSourceChars result key) results

/-- `register`. Extracts without a normal form raise before anything is registered. -/
def register (results : List SearchResult) (extracts : List ExtractResult) (maxSourceChars : ℕ) :
    SourceRegistry :=
  match extracts.mapM fun extract => (normalizeUrl u extract.url).map fun key => (key, extract) with
  | none => registry
  | some extracts => registerResults u extracts maxSourceChars registry results

end SourceRegistry

end registry

/-! ### Citations -/

/-- The text after the end of a fenced block that was opened with `fence`: the fence again, or the
end of the text, before its last line break if it has one. -/
def afterFence (fence : List Char) : List Char → List Char
  | [] => []
  | ['\n'] => ['\n']
  | c :: text =>
    if fence.isPrefixOf (c :: text) then (c :: text).drop fence.length else afterFence fence text

/-- `_FENCED_CODE.sub(" ", text)`, with the length of the text as fuel. -/
def dropFencedCode : ℕ → List Char → List Char
  | 0, text => text
  | _, [] => []
  | fuel + 1, c :: text =>
    let fence := (c :: text).takeWhile (· = c)
    if (c = Char.ofNat 96 ∨ c = '~') ∧ 3 ≤ fence.length then
      ' ' :: dropFencedCode fuel (afterFence fence ((c :: text).drop fence.length))
    else c :: dropFencedCode fuel text

/-- `_INLINE_CODE.sub(" ", text)`, with the length of the text as fuel. -/
def dropInlineCode : ℕ → List Char → List Char
  | 0, text => text
  | _, [] => []
  | fuel + 1, c :: text =>
    let tick := Char.ofNat 96
    let rest := text.dropWhile fun d => d ≠ tick ∧ d ≠ '\n'
    if c = tick ∧ rest.head? = some tick then ' ' :: dropInlineCode fuel (rest.drop 1)
    else c :: dropInlineCode fuel text

section

variable (u : UnicodeData) (registry : SourceRegistry) (text : String)

/-- The groups of the matches of `_CITATION`, with the length of the text as fuel. -/
def citationDigits : ℕ → List Char → List (List Char)
  | 0, _ => []
  | _, [] => []
  | fuel + 1, c :: text =>
    let isDecimal (d : Char) : Bool := (u.decimal d).isSome
    let digits := text.takeWhile isDecimal
    let rest := text.dropWhile isDecimal
    if c = '[' ∧ digits ≠ [] ∧ rest.head? = some ']' then
      digits :: citationDigits fuel (rest.drop 1)
    else citationDigits fuel text

/-- The digits of the citations of a text, code aside. -/
def citedDigits : List (List Char) :=
  let prose := dropFencedCode text.length text.toList
  let prose := dropInlineCode prose.length prose
  citationDigits u prose.length prose

/-- `cited_source_ids`, which raises when `int` does. -/
def readCitedSourceIds : Option (List ℕ) := (citedDigits u text).mapM (intValue u)

/-- The ids of the citations, as if `int` took any number of digits. -/
def citedSourceIds : List ℕ :=
  (citedDigits u text).map fun digits =>
    digits.foldl (fun n d => 10 * n + (u.decimal d).getD 0) 0

/-- The records of the run, and the prior ones with the ids. -/
def SourceRegistry.collect (ids : List ℕ) : List SourceRecord :=
  ids.foldl (fun collected id =>
    match registry.priorById.lookup id with
    | some prior => if id ∈ collected.map SourceRecord.id then collected else collected ++ [prior]
    | none => collected) (registry.byUrl.map Prod.snd)

/-- `assistant_sources`, which raises when `cited_source_ids` does. -/
def SourceRegistry.readAssistantSources : Option (List SourceRecord) :=
  (readCitedSourceIds u text).map registry.collect

/-- The sources of an answer whose citations can be read. -/
def SourceRegistry.assistantSources : List SourceRecord :=
  registry.collect (citedSourceIds u text)

/-- `assistant_metadata`, with the column of a message as its result. -/
def SourceRegistry.assistantMetadata : Option Json :=
  (registry.readAssistantSources u text).map fun
    | [] => .null
    | sources => .obj [("sources", .arr (sources.map fun record => .obj record.metadata))]

end

variable {u : UnicodeData} {registry : SourceRegistry} {text : String}

/-- Citations can be read when they are short. -/
theorem readCitedSourceIds_eq (h : ∀ digits ∈ citedDigits u text, digits.length ≤ 4300) :
    readCitedSourceIds u text = some (citedSourceIds u text) := by
  rw [readCitedSourceIds, citedSourceIds]
  generalize citedDigits u text = groups at h
  induction groups with
  | nil => rfl
  | cons digits groups ih =>
    have hvalue : intValue u digits =
        some (digits.foldl (fun n d => 10 * n + (u.decimal d).getD 0) 0) :=
      if_neg (Nat.not_lt.mpr (h digits List.mem_cons_self))
    rw [List.mapM_cons, hvalue, ih fun d hd => h d (List.mem_cons_of_mem _ hd)]
    rfl

theorem readCitedSourceIds_eq_none {digits : List Char} (hmem : digits ∈ citedDigits u text)
    (hlong : 4300 < digits.length) : readCitedSourceIds u text = none := by
  obtain ⟨before, after, hsplit⟩ := List.append_of_mem hmem
  have hvalue := (@intValue_eq_none_iff u digits).mpr hlong
  rw [readCitedSourceIds, hsplit, List.mapM_append, List.mapM_cons, hvalue]
  cases before.mapM (intValue u) <;> rfl

/-- Sources that are read are those of the citations. -/
theorem SourceRegistry.eq_assistantSources {sources : List SourceRecord}
    (h : registry.readAssistantSources u text = some sources) :
    sources = registry.assistantSources u text := by
  rw [readAssistantSources] at h
  by_cases hshort : ∀ digits ∈ citedDigits u text, digits.length ≤ 4300
  · rw [readCitedSourceIds_eq hshort] at h
    exact (Option.some.inj h).symm
  · obtain ⟨digits, hmem, hlong⟩ : ∃ digits ∈ citedDigits u text, 4300 < digits.length := by
      simpa using hshort
    rw [readCitedSourceIds_eq_none hmem hlong] at h
    cases h

end IChat.Search
