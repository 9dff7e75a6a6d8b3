import IChat.General.StepSystem
import IChat.Search.CitationIds
import IChat.Search.CompletionOrder

/-!
# The sources of a conversation in the browser

An answer may cite a source of an earlier turn, so the browser collects the sources of the thread
by their ids (`conversationSources`), and leaves an id unresolved that is bound to different URLs,
as the registry of the backend does. The registry compares normal forms, and the browser the URLs
as they are stored.

A conversation is the list of its visible assistant messages, each with its stored sources. A run
restores a registry from them, registers what its searches find, and stores the sources of its
answer. An edit or a regeneration archives the last messages.

* `mem_conversationSources_iff`: the browser leaves exactly the ids unresolved that stand with two
  spellings (`Respelled`); the registry those with two normal forms (`mem_priorById_iff`).
* `Numbered` is what every conversation satisfies: an id has one normal form, so that the registry
  keeps every id.
* `conversationSources_agrees`: the two agree exactly as long as no id has two spellings, and that
  is so when no run finds a known page first under another spelling (`SameSpelling`).
-/

namespace IChat.Search

open Url StepSystem

/-! ### The browser -/

/-- What the loop of `conversationSources` collects. -/
structure SourcesById where
  byId : List (ℕ × SourceRecord)
  ambiguous : List ℕ

/-- The body of the loop of `conversationSources`. -/
def addSource (collected : SourcesById) (source : SourceRecord) : SourcesById :=
  match collected.byId.lookup source.id with
  | none => { collected with byId := collected.byId ++ [(source.id, source)] }
  | some existing =>
    if existing.url ≠ source.url then
      { collected with ambiguous := source.id :: collected.ambiguous }
    else collected

/-- `conversationSources`, with the stored sources of each message. -/
def conversationSources (messages : List (List SourceRecord)) : List SourceRecord :=
  let collected := messages.flatten.foldl addSource ⟨[], []⟩
  (collected.byId.map Prod.snd).filter fun source => source.id ∉ collected.ambiguous

/-- An id with two spellings of a URL. -/
def Respelled (sources : List SourceRecord) (id : ℕ) : Prop :=
  ∃ r ∈ sources, ∃ r' ∈ sources, r.id = id ∧ r'.id = id ∧ r.url ≠ r'.url

theorem Respelled.mono {sources sources' : List SourceRecord} {id : ℕ} (h : Respelled sources id)
    (hsub : ∀ r ∈ sources, r ∈ sources') : Respelled sources' id := by
  obtain ⟨r, hr, r', hr', hrest⟩ := h
  exact ⟨r, hsub r hr, r', hsub r' hr', hrest⟩

/-- What has been collected of the sources that were visited. -/
structure SourcesById.Collects (visited : List SourceRecord) (collected : SourcesById) : Prop where
  own_id : ∀ entry ∈ collected.byId, entry.2.id = entry.1
  seen : ∀ entry ∈ collected.byId, entry.2 ∈ visited
  nodup : (collected.byId.map Prod.fst).Nodup
  covered : ∀ r ∈ visited, ∃ first, (r.id, first) ∈ collected.byId ∧
    (r.id ∉ collected.ambiguous → first.url = r.url)
  respelled : ∀ id ∈ collected.ambiguous, Respelled visited id

theorem SourcesById.Collects.step {visited : List SourceRecord} {collected : SourcesById}
    (h : collected.Collects visited) (source : SourceRecord) :
    (addSource collected source).Collects (visited ++ [source]) := by
  have hrespelled : ∀ id ∈ collected.ambiguous, Respelled (visited ++ [source]) id :=
    fun id hid => (h.respelled id hid).mono fun r hr => List.mem_append_left _ hr
  unfold addSource
  cases hlookup : collected.byId.lookup source.id with
  | none =>
    have hnew := List.lookup_eq_none_iff_notMem.mp hlookup
    refine ⟨fun entry hentry => ?_, fun entry hentry => ?_, ?_, fun r hr => ?_, hrespelled⟩
    · rcases List.mem_append.mp hentry with hold | hlast
      · exact h.own_id entry hold
      · rw [List.mem_singleton.mp hlast]
    · rcases List.mem_append.mp hentry with hold | hlast
      · exact List.mem_append_left _ (h.seen entry hold)
      · rw [List.mem_singleton.mp hlast]
        simp
    · rw [List.map_append, List.map_singleton]
      refine List.nodup_append'.mpr ⟨h.nodup, List.nodup_singleton _, fun id hid hlast => ?_⟩
      rw [List.mem_singleton.mp hlast] at hid
      exact hnew hid
    · rcases List.mem_append.mp hr with hold | hlast
      · obtain ⟨first, hfirst, heq⟩ := h.covered r hold
        exact ⟨first, List.mem_append_left _ hfirst, heq⟩
      · rw [List.mem_singleton.mp hlast]
        exact ⟨source, by simp, fun _ => rfl⟩
  | some existing =>
    have hexisting := (List.lookup_eq_some_iff_mem h.nodup).mp hlookup
    have hkeep : ∀ entry ∈ collected.byId, entry.2 ∈ visited ++ [source] := fun entry hentry =>
      List.mem_append_left _ (h.seen entry hentry)
    dsimp only
    split_ifs with hurl
    · refine ⟨h.own_id, hkeep, h.nodup, fun r hr => ?_, fun id hid => ?_⟩
      · rcases List.mem_append.mp hr with hold | hlast
        · obtain ⟨first, hfirst, heq⟩ := h.covered r hold
          exact ⟨first, hfirst, fun hclear =>
            heq fun hmem => hclear (List.mem_cons_of_mem _ hmem)⟩
        · rw [List.mem_singleton.mp hlast]
          exact ⟨existing, hexisting, fun hclear => absurd List.mem_cons_self hclear⟩
      · rcases List.mem_cons.mp hid with rfl | hmem
        · exact ⟨existing, hkeep _ hexisting, source, by simp, h.own_id _ hexisting, rfl, hurl⟩
        · exact hrespelled id hmem
    · refine ⟨h.own_id, hkeep, h.nodup, fun r hr => ?_, hrespelled⟩
      rcases List.mem_append.mp hr with hold | hlast
      · exact h.covered r hold
      · rw [List.mem_singleton.mp hlast]
        exact ⟨existing, hexisting, fun _ => of_not_not hurl⟩

theorem SourcesById.Collects.foldl {visited : List SourceRecord} {collected : SourcesById}
    (h : collected.Collects visited) (sources : List SourceRecord) :
    (sources.foldl addSource collected).Collects (visited ++ sources) := by
  induction sources generalizing visited collected with
  | nil => simpa using h
  | cons source sources ih =>
    rw [List.foldl_cons, List.append_cons]
    exact ih (h.step source)

/-- The browser resolves the ids with one spelling. -/
theorem mem_conversationSources_iff {messages : List (List SourceRecord)} {id : ℕ} :
    id ∈ (conversationSources messages).map SourceRecord.id ↔
      (∃ r ∈ messages.flatten, r.id = id) ∧ ¬Respelled messages.flatten id := by
  have hcollects : (messages.flatten.foldl addSource ⟨[], []⟩).Collects messages.flatten := by
    have hinit : SourcesById.Collects [] ⟨[], []⟩ := by
      constructor <;> simp
    simpa using hinit.foldl messages.flatten
  rw [conversationSources]
  generalize messages.flatten.foldl addSource ⟨[], []⟩ = collected at hcollects
  constructor
  · intro hid
    obtain ⟨source, hsource, rfl⟩ := List.mem_map.mp hid
    obtain ⟨hmem, hclear⟩ := List.mem_filter.mp hsource
    have hclear := of_decide_eq_true hclear
    obtain ⟨entry, hentry, rfl⟩ := List.mem_map.mp hmem
    refine ⟨⟨entry.2, hcollects.seen entry hentry, rfl⟩, ?_⟩
    rintro ⟨r, hr, r', hr', hid, hid', hne⟩
    obtain ⟨first, hfirst, heq⟩ := hcollects.covered r hr
    obtain ⟨first', hfirst', heq'⟩ := hcollects.covered r' hr'
    rw [hid] at hfirst heq
    rw [hid'] at hfirst' heq'
    obtain rfl : first = first' := congrArg Prod.snd
      (List.inj_on_of_nodup_map hcollects.nodup hfirst hfirst' rfl)
    exact hne ((heq hclear).symm.trans (heq' hclear))
  · rintro ⟨⟨r, hr, rfl⟩, hone⟩
    obtain ⟨first, hfirst, -⟩ := hcollects.covered r hr
    refine List.mem_map.mpr ⟨first, List.mem_filter.mpr ⟨List.mem_map.mpr ⟨_, hfirst, rfl⟩, ?_⟩,
      hcollects.own_id _ hfirst⟩
    rw [hcollects.own_id _ hfirst]
    exact decide_eq_true fun hmem => hone (hcollects.respelled _ hmem)

/-! ### The registry -/

/-- A source as it is read back from its metadata. -/
def SourceRecord.stored (record : SourceRecord) : SourceRecord :=
  { record with
    title := if record.title = "" then record.url else record.title
    extracted := false }

/-- A source that can be stored. -/
def SourceRecord.Storable (record : SourceRecord) : Prop := 0 < record.id ∧ record.url ≠ ""

theorem recordFromMetadata_metadata {record : SourceRecord} (h : record.Storable) :
    recordFromMetadata record.metadata = some record.stored := by
  obtain ⟨hid, hurl⟩ := h
  have hpositive : ¬((record.id : ℤ) ≤ 0 ∨ record.url = "") := by
    rintro (hle | hempty)
    · omega
    · exact hurl hempty
  have hget : record.metadata.get? "id" = some (.int record.id) ∧
      record.metadata.get? "url" = some (.str record.url) ∧
      record.metadata.get? "published_at" = some (record.publishedAt.elim .null .str) ∧
      textOf record.metadata "title" "" = record.title ∧
      textOf record.metadata "snippet" "" = record.snippet ∧
      textOf record.metadata "provider" "" = record.provider :=
    ⟨rfl, rfl, rfl, rfl, rfl, rfl⟩
  obtain ⟨hgetId, hgetUrl, hpublished, htitle, hsnippet, hprovider⟩ := hget
  rw [recordFromMetadata, hgetId, hgetUrl, hpublished, htitle, hsnippet, hprovider]
  dsimp only
  rw [if_neg hpositive, Int.toNat_natCast, SourceRecord.stored]
  cases record.publishedAt <;> rfl

theorem records_metadata {sources : List SourceRecord} (h : ∀ r ∈ sources, r.Storable) :
    records (sources.map SourceRecord.metadata) = sources.map SourceRecord.stored := by
  rw [records, List.filterMap_map]
  induction sources with
  | nil => rfl
  | cons r sources ih =>
    rw [List.filterMap_cons, Function.comp_apply,
      recordFromMetadata_metadata (h r List.mem_cons_self), List.map_cons,
      ih fun r' hr' => h r' (List.mem_cons_of_mem _ hr')]

variable {u : UnicodeData} {maxSourceChars : ℕ}

theorem ambiguous_stored_iff {sources : List SourceRecord} {id : ℕ} :
    Ambiguous u (sources.map SourceRecord.stored) id ↔ Ambiguous u sources id := by
  constructor
  · rintro ⟨r, hr, r', hr', hid, hid', hne⟩
    obtain ⟨source, hsource, rfl⟩ := List.mem_map.mp hr
    obtain ⟨source', hsource', rfl⟩ := List.mem_map.mp hr'
    exact ⟨source, hsource, source', hsource', hid, hid', hne⟩
  · rintro ⟨r, hr, r', hr', hid, hid', hne⟩
    exact ⟨r.stored, List.mem_map_of_mem hr, r'.stored, List.mem_map_of_mem hr', hid, hid', hne⟩

/-- A record whose URL has a normal form is collected. -/
theorem exists_addPrior {prior : PriorSources} {item : Dict}
    (hrecord : ∀ record, recordFromMetadata item = some record →
      (normalizeUrl u record.url).isSome)
    (hprior : ∀ entry ∈ prior.byId, (normalizeUrl u entry.2.url).isSome) :
    ∃ next, addPrior u prior item = some next ∧
      ∀ entry ∈ next.byId, (normalizeUrl u entry.2.url).isSome := by
  cases hitem : recordFromMetadata item with
  | none => exact ⟨prior, by rw [addPrior, hitem], hprior⟩
  | some record =>
    have hurl := hrecord record hitem
    obtain ⟨recordUrl, hrecordUrl⟩ := Option.isSome_iff_exists.mp hurl
    cases hlookup : prior.byId.lookup record.id with
    | none =>
      refine ⟨⟨prior.byId ++ [(record.id, record)], prior.ambiguous, max prior.maxId record.id⟩,
        by simp [addPrior, hitem, hlookup, hrecordUrl], fun entry hentry => ?_⟩
      rcases List.mem_append.mp hentry with hold | hlast
      · exact hprior entry hold
      · rw [List.mem_singleton.mp hlast]
        exact hurl
    | some existing =>
      obtain ⟨before, after, hsplit, -⟩ := List.lookup_eq_some_iff.mp hlookup
      obtain ⟨url, hexisting⟩ := Option.isSome_iff_exists.mp
        (hprior (record.id, existing) (by rw [hsplit]; simp))
      exact ⟨⟨prior.byId,
          if url ≠ recordUrl then record.id :: prior.ambiguous else prior.ambiguous,
          max prior.maxId record.id⟩,
        by simp [addPrior, hitem, hlookup, hrecordUrl, hexisting], hprior⟩

/-- A registry is restored when all URLs have a normal form. -/
theorem exists_restore {items : List Dict}
    (h : ∀ r ∈ records items, (normalizeUrl u r.url).isSome) :
    ∃ registry, SourceRegistry.restore u items = some registry := by
  have hfold : ∀ (items : List Dict) (prior : PriorSources),
      (∀ r ∈ records items, (normalizeUrl u r.url).isSome) →
      (∀ entry ∈ prior.byId, (normalizeUrl u entry.2.url).isSome) →
      ∃ collected, items.foldlM (addPrior u) prior = some collected := by
    intro items
    induction items with
    | nil => exact fun prior _ _ => ⟨prior, rfl⟩
    | cons item items ih =>
      intro prior hitems hprior
      rw [records_cons] at hitems
      obtain ⟨next, hnext, hbyId⟩ := exists_addPrior (fun record hrecord =>
        hitems record (List.mem_append_left _ (Option.mem_toList.mpr hrecord))) hprior
      obtain ⟨collected, hcollected⟩ := ih next
        (fun r hr => hitems r (List.mem_append_right _ hr)) hbyId
      refine ⟨collected, ?_⟩
      rw [List.foldlM_cons, hnext]
      exact hcollected
  obtain ⟨collected, hcollected⟩ := hfold items ⟨[], [], 0⟩ h nofun
  exact ⟨_, by rw [SourceRegistry.restore, hcollected]; rfl⟩

/-- The registry resolves the ids with one normal form. -/
theorem mem_priorById_iff {items : List Dict} {registry : SourceRegistry}
    (h : SourceRegistry.restore u items = some registry) {id : ℕ} :
    id ∈ registry.priorById.map Prod.fst ↔
      (∃ r ∈ records items, r.id = id) ∧ ¬Ambiguous u (records items) id := by
  obtain ⟨-, hknows⟩ := SourceRegistry.restore_knowsPrior h
  constructor
  · intro hid
    obtain ⟨entry, hentry, rfl⟩ := List.mem_map.mp hid
    obtain ⟨hsource, hid, hclear⟩ := hknows.entry entry hentry
    exact ⟨⟨entry.2, hsource, hid⟩, hclear⟩
  · rintro ⟨⟨r, hr, rfl⟩, hclear⟩
    obtain ⟨first, hfirst, -⟩ := hknows.covered r hr hclear
    exact List.mem_map.mpr ⟨_, hfirst, rfl⟩

/-! ### Spellings of a registry -/

namespace SourceRegistry

/-- The spelling that a registry holds for a URL. -/
def url? (registry : SourceRegistry) (key : String) : Option String :=
  (registry.byUrl.lookup key).map SourceRecord.url

end SourceRegistry

/-- The spelling in which calls find a URL first. -/
def firstSpelling (u : UnicodeData) (key : String) (calls : List SearchCall) : Option String :=
  ((calls.filterMap (contribution u key)).head?).map fun found => found.1.url

/-- The spelling of a record is the one in which it was found first. -/
theorem reads_url : Reads maxSourceChars SourceRecord.url fun start found =>
    start.getD found.1.url where
  upgrade record _ extract := SourceRegistry.upgrade_url record extract maxSourceChars
  new _ _ _ := rfl
  again _ _ _ _ := rfl

/-- A registry holds a URL in the spelling in which it was found first. -/
theorem url?_registerAll (registry : SourceRegistry) (calls : List SearchCall) (key : String) :
    (registry.registerAll u maxSourceChars calls).url? key =
      (registry.url? key).or (firstSpelling u key calls) := by
  refine (reads_url.registerAll registry calls key).trans ?_
  rw [firstSpelling, ← SourceRegistry.url?]
  generalize registry.url? key = start
  induction calls.filterMap (contribution u key) generalizing start with
  | nil => exact (Option.or_none).symm
  | cons found rest ih =>
    rw [List.foldl_cons, ih]
    cases start <;> rfl

/-- What every registered result keeps, a registry keeps over calls. -/
theorem registerAll_invariant {Inv : SourceRegistry → Prop} {calls : List SearchCall}
    (hstep : ∀ registry extracts, ∀ call ∈ calls, ∀ result ∈ call.results, ∀ key,
      normalizeUrl u result.url = some key → Inv registry →
        Inv (registry.registerResult u extracts maxSourceChars result key))
    {registry : SourceRegistry} (h : Inv registry) :
    Inv (registry.registerAll u maxSourceChars calls) := by
  induction calls generalizing registry with
  | nil => exact h
  | cons call calls ih =>
    have hresults : ∀ extracts results (registry : SourceRegistry),
        (∀ result ∈ results, result ∈ call.results) → Inv registry →
          Inv (SourceRegistry.registerResults u extracts maxSourceChars registry results) := by
      intro extracts results
      induction results with
      | nil => exact fun _ _ h => h
      | cons result results ih =>
        intro registry hsub h
        rw [SourceRegistry.registerResults]
        cases hkey : normalizeUrl u result.url with
        | none => exact h
        | some key =>
          exact ih _ (fun r hr => hsub r (List.mem_cons_of_mem _ hr))
            (hstep registry extracts call List.mem_cons_self result (hsub _ List.mem_cons_self)
              key hkey h)
    refine ih (fun registry extracts other hother => hstep registry extracts other
      (List.mem_cons_of_mem _ hother)) ?_
    show Inv (registry.register u call.results call.extracts maxSourceChars)
    rw [SourceRegistry.register]
    split
    · exact h
    · exact hresults _ _ _ (fun _ hr => hr) h

/-! ### Runs -/

/-- What happens to a conversation: a run that stores its answer, with the calls of `register` in
the order of their completion, or an edit or a regeneration that keeps the first messages. -/
inductive ConversationStep
  | run (calls : List SearchCall) (text : String)
  | archive (kept : ℕ)

/-- The prior sources of a run: those of the visible assistant messages before its target. -/
def priorSources (messages : List (List SourceRecord)) : List Dict :=
  messages.flatten.map SourceRecord.metadata

/-- A step of a conversation. The client of the search service drops results without a URL. -/
def conversationStep (u : UnicodeData) (maxSourceChars : ℕ)
    (messages : List (List SourceRecord)) : ConversationStep → Option (List (List SourceRecord))
  | .run calls text =>
    if ∀ call ∈ calls, ∀ result ∈ call.results, result.url ≠ "" then do
      let registry ← SourceRegistry.restore u (priorSources messages)
      let sources ← (registry.registerAll u maxSourceChars calls).readAssistantSources u text
      some (messages ++ [sources])
    else none
  | .archive kept => some (messages.take kept)

/-- The browser resolves the ids that a registry of the next run keeps. -/
def Agree (u : UnicodeData) (messages : List (List SourceRecord)) : Prop :=
  ∃ registry, SourceRegistry.restore u (priorSources messages) = some registry ∧
    ∀ id, id ∈ (conversationSources messages).map SourceRecord.id ↔
      id ∈ registry.priorById.map Prod.fst

/-- No run finds the page of a source first under another spelling of its URL. -/
def SameSpelling (u : UnicodeData) (messages : List (List SourceRecord)) :
    ConversationStep → Prop
  | .run calls _ => ∀ source ∈ messages.flatten, ∀ key ∈ normalizeUrl u source.url,
      ∀ url ∈ firstSpelling u key calls, url = source.url
  | .archive _ => True

/-- What every conversation satisfies: an id has one URL up to its spelling, and a URL one id. -/
structure Numbered (u : UnicodeData) (sources : List SourceRecord) : Prop where
  storable : ∀ r ∈ sources, r.Storable
  defined : ∀ r ∈ sources, (normalizeUrl u r.url).isSome
  one_id : ∀ r ∈ sources, ∀ r' ∈ sources, r.id = r'.id ↔
    normalizeUrl u r.url = normalizeUrl u r'.url

variable {sources : List SourceRecord} {messages messages' : List (List SourceRecord)}

theorem Numbered.sub {sources' : List SourceRecord} (h : Numbered u sources)
    (hsub : ∀ r ∈ sources', r ∈ sources) : Numbered u sources' where
  storable r hr := h.storable r (hsub r hr)
  defined r hr := h.defined r (hsub r hr)
  one_id r hr r' hr' := h.one_id r (hsub r hr) r' (hsub r' hr')

theorem Numbered.not_ambiguous (h : Numbered u sources) (id : ℕ) : ¬Ambiguous u sources id := by
  rintro ⟨r, hr, r', hr', hid, hid', hne⟩
  exact hne ((h.one_id r hr r' hr').mp (hid.trans hid'.symm))

theorem Numbered.records_eq (h : Numbered u messages.flatten) :
    records (priorSources messages) = messages.flatten.map SourceRecord.stored :=
  records_metadata h.storable

/-- The registry of the next run keeps every id. -/
theorem Numbered.exists_restore (h : Numbered u messages.flatten) :
    ∃ registry, SourceRegistry.restore u (priorSources messages) = some registry ∧
      ∀ id, id ∈ registry.priorById.map Prod.fst ↔ ∃ r ∈ messages.flatten, r.id = id := by
  have hdefined : ∀ r ∈ records (priorSources messages), (normalizeUrl u r.url).isSome := by
    intro r hr
    rw [h.records_eq] at hr
    obtain ⟨source, hsource, rfl⟩ := List.mem_map.mp hr
    exact h.defined source hsource
  obtain ⟨registry, hregistry⟩ := IChat.Search.exists_restore hdefined
  refine ⟨registry, hregistry, fun id => ?_⟩
  rw [mem_priorById_iff hregistry, h.records_eq, ambiguous_stored_iff,
    and_iff_left (h.not_ambiguous id)]
  constructor
  · rintro ⟨r, hr, hid⟩
    obtain ⟨source, hsource, rfl⟩ := List.mem_map.mp hr
    exact ⟨source, hsource, hid⟩
  · rintro ⟨source, hsource, hid⟩
    exact ⟨source.stored, List.mem_map_of_mem hsource, hid⟩

/-- The two agree exactly when no id has two spellings. -/
theorem Numbered.agree_iff (h : Numbered u messages.flatten) :
    Agree u messages ↔ ∀ id, ¬Respelled messages.flatten id := by
  obtain ⟨registry, hregistry, hkeeps⟩ := h.exists_restore
  constructor
  · rintro ⟨other, hother, hids⟩ id hrespelled
    obtain rfl : registry = other := Option.eq_some_unique hregistry hother
    have hmem : ∃ r ∈ messages.flatten, r.id = id := by
      obtain ⟨r, hr, -, -, hid, -⟩ := hrespelled
      exact ⟨r, hr, hid⟩
    have hresolved := (hids id).mpr ((hkeeps id).mpr hmem)
    exact (mem_conversationSources_iff.mp hresolved).2 hrespelled
  · intro hone
    refine ⟨registry, hregistry, fun id => ?_⟩
    rw [mem_conversationSources_iff, hkeeps, and_iff_left (hone id)]

/-! ### One run -/

section oneRun

variable {registry : SourceRegistry} {calls : List SearchCall} {text : String}

/-- The registry of a run after its calls. -/
structure AfterCalls (u : UnicodeData) (sources : List SourceRecord) (calls : List SearchCall)
    (registry : SourceRegistry) : Prop where
  sound : registry.Sound u (sources.map SourceRecord.stored)
  storable : ∀ e ∈ registry.byUrl, e.2.Storable
  spelled : ∀ key, registry.url? key = firstSpelling u key calls

theorem Numbered.afterCalls (h : Numbered u messages.flatten)
    (hregistry : SourceRegistry.restore u (priorSources messages) = some registry)
    (hurls : ∀ call ∈ calls, ∀ result ∈ call.results, result.url ≠ "") :
    AfterCalls u messages.flatten calls (registry.registerAll u maxSourceChars calls) := by
  have hsound := SourceRegistry.restore_sound hregistry
  have hempty := (SourceRegistry.restore_knowsPrior hregistry).1
  have hnext : 0 < registry.nextId := by
    simp only [SourceRegistry.restore, Option.bind_eq_bind, Option.bind_eq_some_iff,
      Option.some.injEq] at hregistry
    obtain ⟨collected, -, rfl⟩ := hregistry
    exact Nat.succ_pos _
  rw [h.records_eq] at hsound
  -- a sound registry gives positive ids only, as those of the sources are
  let Inv (registry : SourceRegistry) : Prop :=
    registry.Sound u (messages.flatten.map SourceRecord.stored) ∧ 0 < registry.nextId ∧
      ∀ e ∈ registry.byUrl, e.2.Storable
  have hinv : Inv (registry.registerAll u maxSourceChars calls) := by
    refine registerAll_invariant (fun registry extracts call hcall result hresult key hkey hreg =>
      ?_) ⟨hsound, hnext, by simp [hempty]⟩
    obtain ⟨hsound, hnext, hstorable⟩ := hreg
    have hadd : ∀ record : SourceRecord, record.Storable →
        ∀ e ∈ registry.byUrl ++ [(key, record)], e.2.Storable := by
      intro record hrecord e he
      rcases List.mem_append.mp he with hold | hlast
      · exact hstorable e hold
      · rw [List.mem_singleton.mp hlast]
        exact hrecord
    refine ⟨hsound.registerResult hkey, ?_⟩
    unfold SourceRegistry.registerResult
    cases registry.byUrl.lookup key with
    | some =>
      refine ⟨hnext, fun e he => ?_⟩
      obtain ⟨entry, hentry, rfl⟩ := List.mem_map.mp he
      have hold := hstorable entry hentry
      split_ifs
      · rwa [SourceRecord.Storable, SourceRegistry.upgrade_id, SourceRegistry.upgrade_url]
      · exact hold
    | none =>
      cases hprior : registry.priorByUrl u key with
      | none => exact ⟨Nat.succ_pos _, hadd _ ⟨hnext, hurls call hcall result hresult⟩⟩
      | some =>
        obtain ⟨hp, -, -⟩ := hsound.of_priorByUrl hprior
        obtain ⟨source, hsource, rfl⟩ := List.mem_map.mp hp
        exact ⟨hnext, hadd _ ⟨(h.storable source hsource).1, hurls call hcall result hresult⟩⟩
  refine ⟨hinv.1, hinv.2.2, fun key => ?_⟩
  rw [url?_registerAll, SourceRegistry.url?, hempty]
  rfl

/-- The sources of an answer are those of the run, to which prior ones are added. -/
theorem assistantSources_invariant {Inv : List SourceRecord → Prop}
    (hprior : ∀ collected id prior, (id, prior) ∈ registry.priorById → Inv collected →
      Inv (collected ++ [prior]))
    (hrun : Inv (registry.byUrl.map Prod.snd)) : Inv (registry.assistantSources u text) := by
  refine List.foldlRecOn _ _ hrun fun collected hcollected id _ => ?_
  cases hlookup : registry.priorById.lookup id with
  | none => exact hcollected
  | some prior =>
    obtain ⟨before, after, hsplit, -⟩ := List.lookup_eq_some_iff.mp hlookup
    have hmem : (id, prior) ∈ registry.priorById := by simp [hsplit]
    dsimp only
    split_ifs
    · exact hcollected
    · exact hprior collected id prior hmem hcollected

theorem mem_assistantSources {r : SourceRecord} (h : r ∈ registry.assistantSources u text) :
    r ∈ registry.byUrl.map Prod.snd ∨ ∃ id, (id, r) ∈ registry.priorById := by
  let Inv (collected : List SourceRecord) : Prop :=
    ∀ r ∈ collected, r ∈ registry.byUrl.map Prod.snd ∨ ∃ id, (id, r) ∈ registry.priorById
  have hinv : Inv (registry.assistantSources u text) := by
    refine assistantSources_invariant (fun collected id prior hmem hcollected r hr => ?_)
      fun r hr => Or.inl hr
    rcases List.mem_append.mp hr with hold | hlast
    · exact hcollected r hold
    · rw [List.mem_singleton.mp hlast]
      exact Or.inr ⟨id, hmem⟩
  exact hinv r h

theorem subset_assistantSources {r : SourceRecord} (h : r ∈ registry.byUrl.map Prod.snd) :
    r ∈ registry.assistantSources u text := by
  let Inv (collected : List SourceRecord) : Prop := r ∈ collected
  have hinv : Inv (registry.assistantSources u text) :=
    assistantSources_invariant (fun _ _ _ _ hcollected => List.mem_append_left _ hcollected) h
  exact hinv

/-- A source after a run is a source before it, or was registered by the run. -/
def Added (sources : List SourceRecord) (registry : SourceRegistry) (r : SourceRecord) : Prop :=
  (∃ source ∈ sources, source.id = r.id ∧ source.url = r.url) ∨ ∃ e ∈ registry.byUrl, e.2 = r

theorem AfterCalls.added (h : AfterCalls u messages.flatten calls registry) {r : SourceRecord}
    (hr : r ∈ (messages ++ [registry.assistantSources u text]).flatten) :
    Added messages.flatten registry r := by
  rw [List.flatten_append, List.flatten_singleton] at hr
  rcases List.mem_append.mp hr with hold | hnew
  · exact Or.inl ⟨r, hold, rfl, rfl⟩
  · rcases mem_assistantSources hnew with hrun | ⟨id, hprior⟩
    · obtain ⟨e, he, rfl⟩ := List.mem_map.mp hrun
      exact Or.inr ⟨e, he, rfl⟩
    · obtain ⟨source, hsource, heq⟩ := List.mem_map.mp (h.sound.entry _ hprior).1
      subst heq
      exact Or.inl ⟨source, hsource, rfl, rfl⟩

/-- A source registered by the run has the id of a source before exactly if it has its URL, up to
the spelling. -/
theorem AfterCalls.id_eq_iff (h : AfterCalls u sources calls registry)
    (hnumbered : Numbered u sources) {e : String × SourceRecord} (he : e ∈ registry.byUrl)
    {source : SourceRecord} (hsource : source ∈ sources) :
    source.id = e.2.id ↔ normalizeUrl u source.url = some e.1 := by
  have hstored : source.stored ∈ sources.map SourceRecord.stored := List.mem_map_of_mem hsource
  have hstoredId : source.stored.id = source.id := rfl
  refine ⟨fun hid => ?_, fun hurl => ?_⟩
  · have hurl := h.sound.consistent he hstored (hstoredId.trans hid)
    exact hurl
  · cases hprior : registry.priorByUrl u e.1 with
    | none =>
      have hambiguous := h.sound.ambiguous_of_priorByUrl hprior hstored hurl
      exact absurd (ambiguous_stored_iff.mp hambiguous) (hnumbered.not_ambiguous _)
    | some =>
      obtain ⟨hp, hpurl, -⟩ := h.sound.of_priorByUrl hprior
      obtain ⟨other, hother, rfl⟩ := List.mem_map.mp hp
      rw [h.sound.known e he _ hprior]
      exact (hnumbered.one_id source hsource other hother).mpr (hurl.trans hpurl.symm)

theorem AfterCalls.entry_eq (h : AfterCalls u sources calls registry)
    {e e' : String × SourceRecord} (he : e ∈ registry.byUrl) (he' : e' ∈ registry.byUrl)
    (heq : e.1 = e'.1) : e = e' :=
  List.inj_on_of_nodup_map h.sound.nodup he he' heq

/-- **Step.** A run keeps the numbering. -/
theorem AfterCalls.numbered (h : AfterCalls u messages.flatten calls registry)
    (hnumbered : Numbered u messages.flatten) :
    Numbered u (messages ++ [registry.assistantSources u text]).flatten := by
  constructor
  · intro r hr
    rcases h.added hr with ⟨source, hsource, hid, hurl⟩ | ⟨e, he, rfl⟩
    · rw [SourceRecord.Storable, ← hid, ← hurl]
      exact hnumbered.storable source hsource
    · exact h.storable e he
  · intro r hr
    rcases h.added hr with ⟨source, hsource, -, hurl⟩ | ⟨e, he, rfl⟩
    · rw [← hurl]
      exact hnumbered.defined source hsource
    · rw [h.sound.keyed e he]
      rfl
  · intro r hr r' hr'
    rcases h.added hr with ⟨source, hsource, hid, hurl⟩ | ⟨e, he, rfl⟩ <;>
      rcases h.added hr' with ⟨source', hsource', hid', hurl'⟩ | ⟨e', he', rfl⟩
    · rw [← hid, ← hid', ← hurl, ← hurl']
      exact hnumbered.one_id source hsource source' hsource'
    · rw [← hid, ← hurl, h.sound.keyed e' he']
      exact h.id_eq_iff hnumbered he' hsource
    · rw [← hid', ← hurl', h.sound.keyed e he, eq_comm, @eq_comm _ (some e.1)]
      exact h.id_eq_iff hnumbered he hsource'
    · rw [h.sound.keyed e he, h.sound.keyed e' he', Option.some_inj]
      exact ⟨h.sound.injective e he e' he', fun heq => by rw [h.entry_eq he he' heq]⟩

/-- **Step.** A run adds no second spelling of a URL exactly if it finds no page of a source first
under another one. -/
theorem AfterCalls.respelled_iff (h : AfterCalls u messages.flatten calls registry)
    (hnumbered : Numbered u messages.flatten) (hone : ∀ id, ¬Respelled messages.flatten id) :
    (∀ id, ¬Respelled (messages ++ [registry.assistantSources u text]).flatten id) ↔
      SameSpelling u messages (.run calls text) := by
  have hentry : ∀ e ∈ registry.byUrl, firstSpelling u e.1 calls = some e.2.url := by
    intro e he
    have hlookup := (List.lookup_eq_some_iff_mem h.sound.nodup).mpr he
    rw [← h.spelled, SourceRegistry.url?, hlookup]
    rfl
  constructor
  · intro hnew source hsource key hkey url hurl
    rw [← h.spelled] at hurl
    obtain ⟨record, hrecord, rfl⟩ := Option.map_eq_some_iff.mp hurl
    have he := (List.lookup_eq_some_iff_mem h.sound.nodup).mp hrecord
    by_contra hne
    refine hnew record.id ⟨record, ?_, source, ?_, rfl,
      (h.id_eq_iff hnumbered he hsource).mpr hkey, hne⟩
    · rw [List.flatten_append, List.flatten_singleton]
      exact List.mem_append_right _ (subset_assistantSources (List.mem_map.mpr ⟨_, he, rfl⟩))
    · rw [List.flatten_append]
      exact List.mem_append_left _ hsource
  · rintro hsame id ⟨r, hr, r', hr', hid, hid', hne⟩
    have hcross : ∀ e ∈ registry.byUrl, ∀ source ∈ messages.flatten, source.id = e.2.id →
        source.url = e.2.url := by
      intro e he source hsource heq
      have hkey := (h.id_eq_iff hnumbered he hsource).mp heq
      exact (hsame source hsource e.1 hkey e.2.url (hentry e he)).symm
    refine hne ?_
    rcases h.added hr with ⟨source, hsource, hsid, hsurl⟩ | ⟨e, he, rfl⟩ <;>
      rcases h.added hr' with ⟨source', hsource', hsid', hsurl'⟩ | ⟨e', he', rfl⟩
    · by_contra hdiff
      refine hone id ⟨source, hsource, source', hsource', hsid.trans hid, hsid'.trans hid', ?_⟩
      rwa [hsurl, hsurl']
    · rw [← hsurl]
      exact hcross e' he' source hsource (hsid.trans (hid.trans hid'.symm))
    · rw [← hsurl']
      exact (hcross e he source' hsource' (hsid'.trans (hid'.trans hid.symm))).symm
    · rw [h.entry_eq he he' (h.sound.injective e he e' he' (hid.trans hid'.symm))]

end oneRun

/-! ### Conversations -/

/-- A run that stores its answer is one of the registry after its calls. -/
theorem conversationStep_run {calls : List SearchCall} {text : String}
    (hnumbered : Numbered u messages.flatten)
    (h : conversationStep u maxSourceChars messages (.run calls text) = some messages') :
    ∃ registry, AfterCalls u messages.flatten calls registry ∧
      messages' = messages ++ [registry.assistantSources u text] := by
  rw [conversationStep] at h
  split_ifs at h with hurls
  obtain ⟨registry, hregistry, h⟩ := Option.bind_eq_some_iff.mp h
  obtain ⟨sources, hsources, heq⟩ := Option.bind_eq_some_iff.mp h
  obtain rfl := SourceRegistry.eq_assistantSources hsources
  exact ⟨_, hnumbered.afterCalls hregistry hurls, (Option.some.inj heq).symm⟩

theorem mem_flatten_take {kept : ℕ} {r : SourceRecord} (h : r ∈ (messages.take kept).flatten) :
    r ∈ messages.flatten := by
  obtain ⟨message, hmessage, hr⟩ := List.mem_flatten.mp h
  exact List.mem_flatten.mpr ⟨message, List.mem_of_mem_take hmessage, hr⟩

/-- **Step.** Every step keeps the numbering. -/
theorem Numbered.step {action : ConversationStep} (h : Numbered u messages.flatten)
    (hstep : conversationStep u maxSourceChars messages action = some messages') :
    Numbered u messages'.flatten := by
  cases action with
  | run =>
    obtain ⟨registry, hafter, rfl⟩ := conversationStep_run h hstep
    exact hafter.numbered h
  | archive =>
    cases hstep
    exact h.sub fun r hr => mem_flatten_take hr

theorem numbered_nil : Numbered u (List.flatten []) := ⟨nofun, nofun, nofun⟩

/-- **Run.** A conversation is numbered. -/
theorem numbered_of_run {steps : List ConversationStep}
    (hrun : run (conversationStep u maxSourceChars) [] steps = some messages) :
    Numbered u messages.flatten := by
  let Inv (messages : List (List SourceRecord)) : Prop := Numbered u messages.flatten
  have hend : Inv messages := run_invariant (fun _ _ _ h hstep => Numbered.step h hstep)
    numbered_nil hrun
  exact hend

/-- **Step.** A step keeps the browser and the registry in agreement exactly if it finds no page of
a source first under another spelling. -/
theorem Agree.step_iff {action : ConversationStep} (hnumbered : Numbered u messages.flatten)
    (hagree : Agree u messages)
    (hstep : conversationStep u maxSourceChars messages action = some messages') :
    Agree u messages' ↔ SameSpelling u messages action := by
  have hone := hnumbered.agree_iff.mp hagree
  rw [(hnumbered.step hstep).agree_iff]
  cases action with
  | run =>
    obtain ⟨registry, hafter, rfl⟩ := conversationStep_run hnumbered hstep
    exact hafter.respelled_iff hnumbered hone
  | archive =>
    cases hstep
    refine iff_of_true (fun id hrespelled => ?_) trivial
    exact hone id (hrespelled.mono fun r hr => mem_flatten_take hr)

/-- The browser resolves the ids that the registry keeps, in every state of a conversation, exactly
if no run of it finds a page of a visible source first under another spelling of its URL; and then
every id is resolved. -/
theorem conversationSources_agrees {steps : List ConversationStep}
    (hrun : run (conversationStep u maxSourceChars) [] steps = some messages) :
    (Throughout (conversationStep u maxSourceChars) (Agree u) [] steps ↔
      Along (conversationStep u maxSourceChars) (SameSpelling u) [] steps) ∧
    (Along (conversationStep u maxSourceChars) (SameSpelling u) [] steps →
      Agree u messages ∧ ∀ source ∈ messages.flatten,
        source.id ∈ (conversationSources messages).map SourceRecord.id) := by
  have hnil : Agree u [] := (Numbered.agree_iff numbered_nil).mpr fun id hrespelled => by
    obtain ⟨r, hr, -⟩ := hrespelled
    cases hr
  have hiff : Throughout (conversationStep u maxSourceChars) (Agree u) [] steps ↔
      Along (conversationStep u maxSourceChars) (SameSpelling u) [] steps := by
    let Inv (messages : List (List SourceRecord)) : Prop := Numbered u messages.flatten
    have hs : Inv [] := numbered_nil
    exact throughout_iff_along (fun _ _ _ h hstep => Numbered.step h hstep)
      (fun _ _ _ h hagree hstep => Agree.step_iff h hagree hstep) hs hnil hrun
  refine ⟨hiff, fun halong => ?_⟩
  have hagree : Agree u messages := hiff.mpr halong steps [] messages (by simp) hrun
  have hone := (numbered_of_run hrun).agree_iff.mp hagree
  exact ⟨hagree, fun source hsource =>
    mem_conversationSources_iff.mpr ⟨⟨source, hsource, rfl⟩, hone source.id⟩⟩

/-! ### A trailing slash -/

/-- The page of `pageResult` as a search may find it, with its URL in another spelling. -/
def slashResult : SearchResult := { pageResult with url := "https://a.test/page/" }

/-- A run that finds one page, and cites nothing. -/
def pageRun (result : SearchResult) : ConversationStep := .run [⟨[result], []⟩] "answer"

def pageSource (result : SearchResult) : SourceRecord :=
  ⟨1, "Page", result.url, "snippet", none, "tavily", false⟩

theorem run_pageRun_pageRun :
    run (conversationStep .ascii 100) [] [pageRun pageResult, pageRun pageResult] =
      some [[pageSource pageResult], [pageSource pageResult]] := by
  decide

theorem run_pageRun_slash :
    run (conversationStep .ascii 100) [] [pageRun pageResult, pageRun slashResult] =
      some [[pageSource pageResult], [pageSource slashResult]] := by
  decide

theorem conversationSources_agrees_page :
    Along (conversationStep .ascii 100) (SameSpelling .ascii) []
        [pageRun pageResult, pageRun pageResult] ↔
      Throughout (conversationStep .ascii 100) (Agree .ascii) []
        [pageRun pageResult, pageRun pageResult] :=
  (conversationSources_agrees run_pageRun_pageRun).1.symm

/-- A page that a later run finds with a trailing slash keeps its id, which the browser then leaves
unresolved. -/
theorem not_agree_slash :
    ¬∀ steps messages, run (conversationStep .ascii 100) [] steps = some messages →
      Agree .ascii messages := by
  intro hclaim
  have hagree := hclaim _ _ run_pageRun_slash
  have hone := (numbered_of_run run_pageRun_slash).agree_iff.mp hagree 1
  exact hone ⟨pageSource pageResult, by simp, pageSource slashResult, by simp, rfl, rfl, by decide⟩

end IChat.Search
