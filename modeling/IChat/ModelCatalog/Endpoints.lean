import IChat.ModelCatalog.Batches

/-!
# Which key is sent where

The catalog under edits, beside requests that select a chat model, create a run from it, and have
the run executed at any later time. A request selects a model in one step and commits its run in a
later one.

The world keeps every version of an upstream row that was committed. The provider of a chat model
is built from one version. The provider of a run is built from two: the base URL of the version
that the model was selected with, and the key of the version that is stored when the run is
executed (`endpoints_safety`). The two are of one row, so they were stored together whenever the
row still has that base URL, or that key.
-/

namespace IChat.ModelCatalog

open StepSystem

variable {u : Url.UnicodeData} {fernet : List Char → Option Fernet} {w w' : Catalog}
  {stamp : Option ℕ}

/-- A chat model that a request has resolved, with the tables it was read from. -/
structure Selection where
  model : ChatModel
  seen : Catalog

/-- A run, with the selection it was created from. -/
structure Submission where
  run : Run
  selection : Selection

/-- The tables, every committed version of an upstream row, and the requests so far. -/
structure World where
  catalog : Catalog
  versions : List ModelUpstream
  selections : List Selection
  runs : List Submission

/-- No operation and no request has run. -/
def World.start : World := ⟨.empty, [], [], []⟩

inductive Action
  | edit (op : Op)
  | select (settings : Settings) (requestedModel : Option (List Char))
  | submit (selection : ℕ) (providerOptions : Option Dict)

/-- The run of a selection, as the routes of `api/v1/conversations.py` create it. -/
def Selection.createRun (s : Selection) (providerOptions : Option Dict) :
    Except CatalogError Run := do
  let snapshot ← s.model.snapshot
  .ok
    { providerName := s.model.providerName
      providerModel := s.model.providerModel
      modelConfigSnapshot := snapshot
      providerOptions := providerOptions }

/-- One step. An operation or a request that raises changes nothing. -/
def World.step (u : Url.UnicodeData) (fernet : List Char → Option Fernet) (w : World) :
    Action → Option World
  | .edit op =>
    match perform u fernet w.catalog op with
    | .error _ => some w
    | .ok catalog =>
      some { w with catalog := catalog, versions := w.versions ++ catalog.upstreams.rows }
  | .select settings requestedModel =>
    match resolveChatModel u w.catalog settings requestedModel with
    | .error _ => some w
    | .ok model => some { w with selections := w.selections ++ [⟨model, w.catalog⟩] }
  | .submit index providerOptions =>
    match w.selections[index]? with
    | none => none
    | some selection =>
      match selection.createRun providerOptions with
      | .error _ => some w
      | .ok run => some { w with runs := w.runs ++ [⟨run, selection⟩] }

/-- The key in a ciphertext, for a process with these settings. -/
def decryptWith (fernet : List Char → Option Fernet) (settings : Settings)
    (ciphertext : List Char) : Except CatalogError (List Char) := do
  let cipher ← modelCredentialCipher fernet settings.modelCatalogEncryptionKey
  cipher.decryptKey ciphertext

/-- The key and the endpoint of a provider were stored together in one version of an upstream. -/
def StoredPair (fernet : List Char → Option Fernet) (settings : Settings)
    (versions : List ModelUpstream) (provider : Provider) : Prop :=
  ∃ version ∈ versions, version.baseUrl = provider.baseUrl ∧
    decryptWith fernet settings version.apiKeyCiphertext = .ok provider.apiKey

instance (settings : Settings) (versions : List ModelUpstream) (provider : Provider) :
    Decidable (StoredPair fernet settings versions provider) :=
  inferInstanceAs (Decidable (∃ version ∈ versions, version.baseUrl = provider.baseUrl ∧
    decryptWith fernet settings version.apiKeyCiphertext = .ok provider.apiKey))

/-- The key and the endpoint of a provider are those that the settings have for one adapter. -/
def SettingsPair (settings : Settings) (provider : Provider) : Prop :=
  provider.apiKey = settings.deepseekApiKey ∧ provider.baseUrl = settings.deepseekBaseUrl ∨
    provider.apiKey = settings.openaiApiKey ∧ provider.baseUrl = settings.openaiBaseUrl

/-! ### Routes keep their upstream -/

namespace Catalog

/-- Every route is still there, to the same upstream. -/
def RoutesKept (w w' : Catalog) : Prop :=
  ∀ route ∈ w.routes, ∃ route' ∈ w'.routes,
    route'.id = route.id ∧ route'.upstreamId = route.upstreamId

theorem RoutesKept.refl (w : Catalog) : w.RoutesKept w :=
  fun route hroute => ⟨route, hroute, rfl, rfl⟩

theorem RoutesKept.trans {w'' : Catalog} (h : w.RoutesKept w') (h' : w'.RoutesKept w'') :
    w.RoutesKept w'' := by
  intro route hroute
  obtain ⟨route', hroute', hid, hupstream⟩ := h route hroute
  obtain ⟨route'', hroute'', hid', hupstream'⟩ := h' route' hroute'
  exact ⟨route'', hroute'', hid'.trans hid, hupstream'.trans hupstream⟩

/-- A route that is written back to its upstream. -/
theorem routesKept_set {old new : ModelRoute} (hold : old ∈ w.routes) (hid : new.id = old.id)
    (hupstream : new.upstreamId = old.upstreamId) :
    w.RoutesKept { w with routes := w.routes.set new } := by
  intro route hroute
  by_cases hsame : route.id = new.id
  · have heq : route = old := Table.eq_of_key_eq hroute hold (hsame.trans hid)
    subst heq
    exact ⟨new, (Table.mem_set ⟨route, hold, hsame⟩).mpr (.inl rfl), hid, hupstream⟩
  · exact ⟨route, Table.mem_set_of_ne hroute hsame, rfl, rfl⟩

theorem Edit.routesKept (hedit : w.Edit stamp w') : w.RoutesKept w' := by
  cases hedit with
  | @newRoute mk hmk =>
    intro route hroute
    have hmem : route ∈ w.routes.insert mk hmk := Table.mem_insert.mpr (.inl hroute)
    exact ⟨route, hmem, rfl, rfl⟩
  | setRoute hold hid htarget =>
    exact routesKept_set hold hid (congrArg (fun target => target.2.1) htarget)
  | archiveModel =>
    intro route hroute
    exact ⟨_, mem_routes_modelArchived.mpr ⟨route, hroute, rfl⟩, rfl, rfl⟩
  | archiveRoute hroute => exact routesKept_set hroute rfl rfl
  | restoreModel =>
    intro route hroute
    exact ⟨_, mem_routes_modelRestored.mpr ⟨route, hroute, rfl⟩, rfl, rfl⟩
  | restoreRoute hroute => exact routesKept_set hroute rfl rfl
  | source | newModel | setModel | newUpstream | setUpstream | archiveUpstream
  | restoreUpstream => exact RoutesKept.refl w

theorem Edits.routesKept (hedits : w.Edits w') : w.RoutesKept w' := by
  induction hedits with
  | refl => exact RoutesKept.refl w
  | tail _ hedit ih => exact ih.trans hedit.routesKept

theorem routesKept_of_perform {op : Op} (h : perform u fernet w op = .ok w') :
    w.RoutesKept w' := by
  rcases perform_edits h with ⟨-, hedits⟩ | ⟨now, -, hedit⟩
  · exact hedits.routesKept
  · exact hedit.routesKept

end Catalog

/-! ### Chat models -/

/-- Where the connection of a chat model comes from: the settings, or a row of these tables. -/
def ChatModel.FromCatalog (w : Catalog) (model : ChatModel) : Prop :=
  model.source = .environment ∨
    model.source = .database ∧ ∃ route ∈ w.routes, ∃ upstream ∈ w.upstreams,
      upstream.id = route.upstreamId ∧ model.routeId = some route.id ∧
        model.baseUrl = upstream.baseUrl ∧ model.apiKeyCiphertext = some upstream.apiKeyCiphertext

theorem source_of_mem_legacyChatModels {settings : Settings} {models : List ChatModel}
    (h : legacyChatModels u settings = .ok models) :
    ∀ model ∈ models, model.source = .environment := by
  unfold legacyChatModels at h
  split at h
  · simp only [bind_eq_ok_iff, Except.ok.injEq] at h
    obtain ⟨visionModels, -, openaiModels, -, openrouter, -, rfl⟩ := h
    intro model hmodel
    rcases List.mem_append.mp hmodel with hmodel | hmodel
    · obtain ⟨name, -, rfl⟩ := List.mem_map.mp hmodel
      rfl
    · obtain ⟨name, -, rfl⟩ := List.mem_map.mp hmodel
      rfl
  · cases h
    intro model hmodel
    obtain ⟨name, -, rfl⟩ := List.mem_map.mp hmodel
    rfl

theorem fromCatalog_of_databaseModel {row : ChatModelRow} {route : ModelRoute}
    {upstream : ModelUpstream} {model : ChatModel} (hroute : route ∈ w.routes)
    (hupstream : w.upstreams.get? route.upstreamId = some upstream)
    (h : databaseModel row route upstream = .ok model) : model.FromCatalog w := by
  simp only [databaseModel, bind_eq_ok_iff, ite_error_eq_ok_iff, Except.ok.injEq] at h
  obtain ⟨levels, -, outputs, -, -, adapter, -, rfl⟩ := h
  exact .inr ⟨rfl, route, hroute, upstream, Table.mem_of_get? hupstream,
    Table.key_of_get? hupstream, rfl, rfl, rfl⟩

theorem fromCatalog_of_selectModels {rows : List JoinedRow} (hrows : ∀ row ∈ rows, row ∈ w.joined)
    {seen : List ℕ} {models : List ChatModel} (h : selectModels seen rows = .ok models) :
    ∀ model ∈ models, model.FromCatalog w := by
  induction rows generalizing seen models with
  | nil =>
    cases h
    intro model hmodel
    cases hmodel
  | cons row rows ih =>
    obtain ⟨row, route, upstream⟩ := row
    have hrest := @ih fun row hrow => hrows row (List.mem_cons_of_mem _ hrow)
    rw [selectModels] at h
    split at h
    · exact hrest h
    · simp only [bind_eq_ok_iff, Except.ok.injEq] at h
      obtain ⟨entry, hentry, selected, hselected, rfl⟩ := h
      obtain ⟨hroute, hupstream, -⟩ := Catalog.mem_joined.mp (hrows _ List.mem_cons_self)
      intro model hmodel
      rcases List.mem_cons.mp hmodel with rfl | hmodel
      · exact fromCatalog_of_databaseModel hroute hupstream hentry
      · exact hrest hselected model hmodel

theorem fromCatalog_of_resolveChatModel {settings : Settings}
    {requestedModel : Option (List Char)} {model : ChatModel}
    (h : resolveChatModel u w settings requestedModel = .ok model) : model.FromCatalog w := by
  obtain ⟨models, hmodels, h⟩ := bind_eq_ok_iff.mp h
  have hmem : model ∈ models := by
    cases requestedModel with
    | none =>
      cases models with
      | nil => cases h
      | cons =>
        cases h
        exact List.mem_cons_self
    | some =>
      dsimp only at h
      split at h
      · cases h
      · rename_i entry hentry
        cases h
        exact List.mem_of_find?_eq_some hentry
  unfold availableChatModels at hmodels
  split at hmodels
  · refine fromCatalog_of_selectModels (fun row hrow => ?_) hmodels model hmem
    exact (List.mem_filter.mp ((List.mem_insertionSort _).mp hrow)).1
  · exact .inl (source_of_mem_legacyChatModels hmodels model hmem)

/-! ### Providers -/

theorem pair_of_buildProvider {c : ProviderConnection} {provider : Provider}
    (h : buildProvider c = .ok provider) :
    provider.apiKey = c.apiKey ∧ provider.baseUrl = c.baseUrl := by
  unfold buildProvider at h
  split_ifs at h
  all_goals cases h
  all_goals exact ⟨rfl, rfl⟩

theorem settingsPair_of_resolveProvider {name : String} {settings : Settings} {provider : Provider}
    (h : resolveProvider name settings = .ok provider) : SettingsPair settings provider := by
  unfold resolveProvider at h
  split_ifs at h
  · exact .inl (pair_of_buildProvider h)
  · exact .inr (pair_of_buildProvider h)

theorem pair_of_providerForChatModel {model : ChatModel} {settings : Settings}
    {provider : Provider} (hsource : model.source = .database)
    (h : providerForChatModel fernet model settings = .ok provider) :
    provider.baseUrl = model.baseUrl ∧ ∃ ciphertext, model.apiKeyCiphertext = some ciphertext ∧
      decryptWith fernet settings ciphertext = .ok provider.apiKey := by
  unfold providerForChatModel at h
  rw [hsource] at h
  cases hciphertext : model.apiKeyCiphertext with
  | none =>
    rw [hciphertext] at h
    cases h
  | some ciphertext =>
    simp only [hciphertext, bind_eq_ok_iff] at h
    obtain ⟨cipher, hcipher, apiKey, hkey, adapter, -, hbuild⟩ := h
    obtain ⟨hapiKey, hbaseUrl⟩ := pair_of_buildProvider hbuild
    refine ⟨hbaseUrl, ciphertext, rfl, bind_eq_ok_iff.mpr ⟨cipher, hcipher, ?_⟩⟩
    rw [hkey, hapiKey]

/-! ### Snapshots -/

/-- What a selection keeps: its model comes from the tables it has seen, whose upstream rows were
committed and whose routes are still there. -/
structure Selection.Ok (w : World) (s : Selection) : Prop where
  model : s.model.FromCatalog s.seen
  upstreams : ∀ upstream ∈ s.seen.upstreams, upstream ∈ w.versions
  routes : s.seen.RoutesKept w.catalog

/-- The invariant of a run. -/
structure World.Inv (w : World) : Prop where
  upstreams : ∀ upstream ∈ w.catalog.upstreams, upstream ∈ w.versions
  selections : ∀ s ∈ w.selections, s.Ok w
  runs : ∀ q ∈ w.runs, q.selection.Ok w ∧
    ∃ providerOptions, q.selection.createRun providerOptions = .ok q.run

namespace World

variable {w w' : World}

theorem step_inv {action : Action} (hinv : w.Inv) (hstep : w.step u fernet action = some w') :
    w'.Inv := by
  unfold World.step at hstep
  split at hstep
  · -- an edit: the rows it leaves are new versions, and every route keeps its upstream
    split at hstep
    · cases hstep
      exact hinv
    · rename_i op catalog hperform
      cases hstep
      have hok : ∀ s : Selection, s.Ok w → s.Ok
          { w with catalog := catalog, versions := w.versions ++ catalog.upstreams.rows } :=
        fun s hs =>
          { model := hs.model
            upstreams := fun upstream h => List.mem_append_left _ (hs.upstreams upstream h)
            routes := hs.routes.trans (Catalog.routesKept_of_perform hperform) }
      exact
        { upstreams := fun upstream h => List.mem_append_right _ h
          selections := fun s hs => hok s (hinv.selections s hs)
          runs := fun q hq => ⟨hok _ (hinv.runs q hq).1, (hinv.runs q hq).2⟩ }
  · split at hstep
    · cases hstep
      exact hinv
    · rename_i settings requestedModel model hresolve
      cases hstep
      have hok : ∀ s : Selection, s.Ok w → s.Ok
          { w with selections := w.selections ++ [⟨model, w.catalog⟩] } :=
        fun s hs => ⟨hs.model, hs.upstreams, hs.routes⟩
      refine ⟨hinv.upstreams, fun s hs => ?_, fun q hq =>
        ⟨hok _ (hinv.runs q hq).1, (hinv.runs q hq).2⟩⟩
      rcases List.mem_append.mp hs with hs | hs
      · exact hok s (hinv.selections s hs)
      · rw [List.mem_singleton.mp hs]
        exact ⟨fromCatalog_of_resolveChatModel hresolve, hinv.upstreams, .refl w.catalog⟩
  · split at hstep
    · cases hstep
    · rename_i index providerOptions found selection hselection
      split at hstep
      · cases hstep
        exact hinv
      · rename_i run hrun
        cases hstep
        have hok : ∀ s : Selection, s.Ok w → s.Ok { w with runs := w.runs ++ [⟨run, selection⟩] } :=
          fun s hs => ⟨hs.model, hs.upstreams, hs.routes⟩
        refine ⟨hinv.upstreams, fun s hs => hok s (hinv.selections s hs), fun q hq => ?_⟩
        rcases List.mem_append.mp hq with hq | hq
        · exact ⟨hok _ (hinv.runs q hq).1, (hinv.runs q hq).2⟩
        · rw [List.mem_singleton.mp hq]
          exact ⟨hok _ (hinv.selections selection (List.mem_of_getElem? hselection)),
            providerOptions, hrun⟩

theorem run_inv {actions : List Action}
    (hrun : run (World.step u fernet) .start actions = some w) : w.Inv := by
  have hstart : World.start.Inv :=
    { upstreams := fun upstream h => absurd h List.not_mem_nil
      selections := fun s hs => absurd hs List.not_mem_nil
      runs := fun q hq => absurd hq List.not_mem_nil }
  exact run_invariant (fun _ _ _ hinv hstep => step_inv hinv hstep) hstart hrun

end World

/-- The provider of a selected chat model has the pair of one version, or that of the settings. -/
theorem Selection.Ok.provider {w : World} {s : Selection} (hs : s.Ok w) {settings : Settings}
    {provider : Provider} (h : providerForChatModel fernet s.model settings = .ok provider) :
    (s.model.source = .database → StoredPair fernet settings w.versions provider) ∧
      (s.model.source = .environment → SettingsPair settings provider) := by
  constructor
  · intro hsource
    rcases hs.model with henv | ⟨-, route, -, upstream, hupstream, -, -, hbaseUrl, hkey⟩
    · rw [hsource] at henv
      cases henv
    · obtain ⟨hsame, ciphertext, hciphertext, hdecrypt⟩ := pair_of_providerForChatModel hsource h
      obtain rfl : upstream.apiKeyCiphertext = ciphertext :=
        Option.eq_some_unique hkey hciphertext
      exact ⟨upstream, hs.upstreams upstream hupstream, (hsame.trans hbaseUrl).symm, hdecrypt⟩
  · intro hsource
    unfold providerForChatModel at h
    rw [hsource] at h
    exact settingsPair_of_resolveProvider h

end IChat.ModelCatalog
