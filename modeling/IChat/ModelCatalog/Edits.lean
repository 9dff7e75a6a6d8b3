import Mathlib.Logic.Relation
import IChat.General.Lists
import IChat.ModelCatalog.Management

/-!
# What an operation can do to the catalog

`Catalog.Edit` lists the changes that the operations make to the tables, each with the facts that
the operation has checked before it: a row is added or written back, archived, or restored. Every
operation is one edit, except the import, which is a sequence of edits that archive nothing
(`perform_edits`). Everything that is proved about runs of the catalog is proved about edits.
-/

namespace IChat.ModelCatalog

open Text

variable {u : Url.UnicodeData} {fernet : List Char → Option Fernet} {w w' : Catalog}

/-! ### What the checks establish -/

/-- The outputs are outputs of the adapter, each once. -/
def Allowed (adapter : String) (outputs : List String) : Prop :=
  outputs.Nodup ∧ ∃ allowed, adapterReasoningOutputs.lookup adapter = some allowed ∧
    ∀ output ∈ outputs, output ∈ allowed

/-- What the tables require of the columns of a model. -/
def ChatModelRow.Valid (model : ChatModelRow) : Prop :=
  (model.thinkingLevels.Nodup ∧ ∀ level ∈ model.thinkingLevels, level ∈ knownThinkingLevels) ∧
    model.tokenProfile ∈ tokenProfiles

/-- The columns of the unique index of the routes. -/
def ModelRoute.target (route : ModelRoute) : ℕ × ℕ × List Char :=
  (route.chatModelId, route.upstreamId, route.upstreamModel)

theorem known_of_mem_allowed {adapter : String} {allowed : List String}
    (h : adapterReasoningOutputs.lookup adapter = some allowed) :
    ∀ output ∈ allowed, output ∈ knownReasoningOutputs := by
  have hnodup : (adapterReasoningOutputs.map Prod.fst).Nodup := by decide
  have hknown : ∀ entry ∈ adapterReasoningOutputs, ∀ output ∈ entry.2,
      output ∈ knownReasoningOutputs := by decide
  exact hknown _ ((List.lookup_eq_some_iff_mem hnodup).mp h)

/-- The check of outputs succeeds on allowed outputs only, and returns them. -/
theorem validateReasoningOutputs_eq_ok_iff {outputs validated : List String} {adapter : String} :
    validateReasoningOutputs outputs adapter = .ok validated ↔
      validated = outputs ∧ Allowed adapter outputs := by
  unfold validateReasoningOutputs Allowed
  rw [ite_error_eq_ok_iff]
  cases hlookup : adapterReasoningOutputs.lookup adapter with
  | none => simp
  | some =>
    have hknown := known_of_mem_allowed hlookup
    simp only [ite_error_eq_ok_iff, Except.ok.injEq, Option.some.injEq, exists_eq_left']
    constructor
    · rintro ⟨hvalid, hall, rfl⟩
      push Not at hvalid hall
      exact ⟨rfl, hvalid.1, hall⟩
    · rintro ⟨rfl, hnodup, hall⟩
      push Not
      exact ⟨⟨hnodup, fun output h => hknown output (hall output h)⟩, hall, rfl⟩

theorem validateThinkingLevels_eq_ok_iff {levels validated : List String} :
    validateThinkingLevels levels = .ok validated ↔
      validated = levels ∧ levels.Nodup ∧ ∀ level ∈ levels, level ∈ knownThinkingLevels := by
  unfold validateThinkingLevels
  rw [ite_error_eq_ok_iff, Except.ok.injEq]
  push Not
  tauto

/-- The check of several routes succeeds when it does on each. -/
theorem allowed_of_validateRoutes {routes : List ModelRoute} {adapter : String}
    {validated : List (List String)} (h : validateRoutes routes adapter = .ok validated) :
    ∀ route ∈ routes, Allowed adapter route.reasoningOutputs := by
  intro route hroute
  obtain ⟨outputs, -, houtputs⟩ := (Except.forall₂_of_mapM_eq_ok h).flip.exists_left hroute
  exact (validateReasoningOutputs_eq_ok_iff.mp houtputs).2

/-! ### Lookups -/

namespace Catalog

theorem of_activeModel?_eq_some {key : List Char} {model : ChatModelRow}
    (h : w.activeModel? key = some model) :
    model ∈ w.models ∧ model.key = key ∧ model.archivedAt = none :=
  ⟨List.mem_of_find?_eq_some h, by simpa using List.find?_some h⟩

theorem activeModel?_eq_none_iff {key : List Char} :
    w.activeModel? key = none ↔ ∀ model ∈ w.models, model.archivedAt = none → model.key ≠ key := by
  simp only [activeModel?, List.find?_eq_none, decide_eq_true_eq, not_and, Table.mem_iff]
  exact forall₂_congr fun model _ => imp_not_comm

theorem of_activeUpstream?_eq_some {key : List Char} {upstream : ModelUpstream}
    (h : w.activeUpstream? key = some upstream) :
    upstream ∈ w.upstreams ∧ upstream.key = key ∧ upstream.archivedAt = none :=
  ⟨List.mem_of_find?_eq_some h, by simpa using List.find?_some h⟩

theorem activeUpstream?_eq_none_iff {key : List Char} :
    w.activeUpstream? key = none ↔
      ∀ upstream ∈ w.upstreams, upstream.archivedAt = none → upstream.key ≠ key := by
  simp only [activeUpstream?, List.find?_eq_none, decide_eq_true_eq, not_and, Table.mem_iff]
  exact forall₂_congr fun upstream _ => imp_not_comm

theorem of_activeRoute?_eq_some {chatModelId upstreamId : ℕ} {upstreamModel : List Char}
    {route : ModelRoute} (h : w.activeRoute? chatModelId upstreamId upstreamModel = some route) :
    route ∈ w.routes ∧ route.target = (chatModelId, upstreamId, upstreamModel) ∧
      route.archivedAt = none := by
  have hfound := List.find?_some h
  simp only [decide_eq_true_eq] at hfound
  obtain ⟨rfl, rfl, rfl, harchived⟩ := hfound
  exact ⟨List.mem_of_find?_eq_some h, rfl, harchived⟩

theorem activeRoute?_eq_none_iff {chatModelId upstreamId : ℕ} {upstreamModel : List Char} :
    w.activeRoute? chatModelId upstreamId upstreamModel = none ↔
      ∀ route ∈ w.routes, route.archivedAt = none →
        route.target ≠ (chatModelId, upstreamId, upstreamModel) := by
  simp only [activeRoute?, List.find?_eq_none, decide_eq_true_eq, Table.mem_iff,
    ModelRoute.target, ne_eq, Prod.mk.injEq]
  refine forall₂_congr fun route _ => ?_
  tauto

theorem mem_activeRoutesTo {upstreamId : ℕ} {route : ModelRoute} :
    route ∈ w.activeRoutesTo upstreamId ↔
      route ∈ w.routes ∧ route.upstreamId = upstreamId ∧ route.archivedAt = none := by
  simp [activeRoutesTo, Table.mem_iff]

theorem of_chatModelByKey {key : List Char} {model : ChatModelRow}
    (h : w.chatModelByKey key = .ok model) : model ∈ w.models ∧ model.archivedAt = none := by
  obtain ⟨key', -, h⟩ := bind_eq_ok_iff.mp h
  cases hactive : w.activeModel? key' with
  | none =>
    rw [hactive] at h
    cases h
  | some =>
    rw [hactive] at h
    cases h
    obtain ⟨hmem, -, harchived⟩ := of_activeModel?_eq_some hactive
    exact ⟨hmem, harchived⟩

theorem of_upstreamByKey {key : List Char} {upstream : ModelUpstream}
    (h : w.upstreamByKey key = .ok upstream) :
    upstream ∈ w.upstreams ∧ upstream.archivedAt = none := by
  obtain ⟨key', -, h⟩ := bind_eq_ok_iff.mp h
  cases hactive : w.activeUpstream? key' with
  | none =>
    rw [hactive] at h
    cases h
  | some =>
    rw [hactive] at h
    cases h
    obtain ⟨hmem, -, harchived⟩ := of_activeUpstream?_eq_some hactive
    exact ⟨hmem, harchived⟩

theorem of_activeRoute {modelKey upstreamKey upstreamModel : List Char} {route : ModelRoute}
    {upstream : ModelUpstream}
    (h : w.activeRoute modelKey upstreamKey upstreamModel = .ok (route, upstream)) :
    route ∈ w.routes ∧ route.archivedAt = none ∧ upstream ∈ w.upstreams ∧
      route.upstreamId = upstream.id := by
  obtain ⟨model, -, h⟩ := bind_eq_ok_iff.mp h
  obtain ⟨upstream', hupstream, h⟩ := bind_eq_ok_iff.mp h
  obtain ⟨remoteModel, -, h⟩ := bind_eq_ok_iff.mp h
  cases hactive : w.activeRoute? model.id upstream'.id remoteModel with
  | none =>
    rw [hactive] at h
    cases h
  | some =>
    rw [hactive] at h
    cases h
    obtain ⟨hmem, htarget, harchived⟩ := of_activeRoute?_eq_some hactive
    exact ⟨hmem, harchived, (of_upstreamByKey hupstream).1,
      congrArg (fun target => target.2.1) htarget⟩

theorem mem_routesWithUpstream {route : ModelRoute} {upstream : ModelUpstream} :
    (route, upstream) ∈ w.routesWithUpstream ↔
      route ∈ w.routes ∧ w.upstreams.get? route.upstreamId = some upstream := by
  simp only [routesWithUpstream, List.mem_filterMap, Option.map_eq_some_iff, Prod.mk.injEq,
    Table.mem_iff]
  constructor
  · rintro ⟨found, hfound, upstream', hget, rfl, rfl⟩
    exact ⟨hfound, hget⟩
  · rintro ⟨hroute, hget⟩
    exact ⟨route, hroute, upstream, hget, rfl, rfl⟩

theorem mem_batch {chatModelId archivedAt : ℕ} {route : ModelRoute} {upstream : ModelUpstream} :
    (route, upstream) ∈ w.batch chatModelId archivedAt ↔
      route ∈ w.routes ∧ w.upstreams.get? route.upstreamId = some upstream ∧
        route.chatModelId = chatModelId ∧ route.archivedAt = some archivedAt ∧
          upstream.archivedAt = none := by
  rw [batch, List.mem_filter, mem_routesWithUpstream, and_assoc]
  simp

end Catalog

namespace Catalog

theorem mem_models_modelArchived {model row : ChatModelRow} {now : ℕ} (hmodel : model ∈ w.models) :
    row ∈ (w.modelArchived model now).models ↔
      row = { model with archivedAt := some now } ∨ row ∈ w.models ∧ row.id ≠ model.id :=
  Table.mem_set ⟨model, hmodel, rfl⟩

theorem mem_routes_modelArchived {model : ChatModelRow} {route : ModelRoute} {now : ℕ} :
    route ∈ (w.modelArchived model now).routes ↔
      ∃ old ∈ w.routes, old.archivedWith model.id now = route :=
  @Table.mem_map _ _ w.routes _ (ModelRoute.archivedWith model.id now) fun _ => rfl

theorem mem_models_modelRestored {model row : ChatModelRow} {archivedAt : ℕ}
    (hmodel : model ∈ w.models) :
    row ∈ (w.modelRestored model archivedAt).models ↔
      row = { model with archivedAt := none } ∨ row ∈ w.models ∧ row.id ≠ model.id :=
  Table.mem_set ⟨model, hmodel, rfl⟩

theorem mem_routes_modelRestored {model : ChatModelRow} {route : ModelRoute} {archivedAt : ℕ} :
    route ∈ (w.modelRestored model archivedAt).routes ↔
      ∃ old ∈ w.routes, old.restoredWith (w.batch model.id archivedAt) = route :=
  @Table.mem_map _ _ w.routes _ (ModelRoute.restoredWith (w.batch model.id archivedAt)) fun _ => rfl

/-- A route keeps the time it was archived at unless it is restored. -/
theorem restoredWith_archivedAt_of_ne {batch : List (ModelRoute × ModelUpstream)}
    {route : ModelRoute} (h : (route.restoredWith batch).archivedAt ≠ none) :
    (route.restoredWith batch).archivedAt = route.archivedAt := by
  rw [ModelRoute.restoredWith] at h ⊢
  by_cases hin : route.id ∈ batch.map (fun row => row.1.id)
  · simp only [hin, if_true, ne_eq, not_true] at h
  · simp only [hin, if_false]

/-- A route is restored exactly when it is one of the batch. -/
theorem restoredWith_archivedAt {chatModelId archivedAt : ℕ} {route : ModelRoute}
    (hroute : route ∈ w.routes) :
    (route.restoredWith (w.batch chatModelId archivedAt)).archivedAt = none ↔
      route.archivedAt = none ∨ ∃ upstream, (route, upstream) ∈ w.batch chatModelId archivedAt := by
  have hid : route.id ∈ (w.batch chatModelId archivedAt).map (fun row => row.1.id) ↔
      ∃ upstream, (route, upstream) ∈ w.batch chatModelId archivedAt := by
    rw [List.mem_map]
    constructor
    · rintro ⟨⟨other, upstream⟩, hbatch, hid⟩
      have hother : other ∈ w.routes := (mem_batch.mp hbatch).1
      obtain rfl : other = route := Table.eq_of_key_eq hother hroute hid
      exact ⟨upstream, hbatch⟩
    · rintro ⟨upstream, hbatch⟩
      exact ⟨(route, upstream), hbatch, rfl⟩
  rw [← hid, ModelRoute.restoredWith]
  by_cases hin : route.id ∈ (w.batch chatModelId archivedAt).map (fun row => row.1.id)
  · simp [hin]
  · simp [hin]

end Catalog

/-! ### Edits -/

/-- A change of the tables, with the time it archives rows at if it does. -/
inductive Catalog.Edit (w : Catalog) : Option ℕ → Catalog → Prop
  | source (enabled : Bool) : w.Edit none { w with databaseEnabled := enabled }
  | newModel {mk : ℕ → ChatModelRow} {hmk : ∀ id, (mk id).id = id}
      (hfree : ∀ model ∈ w.models, model.archivedAt = none → model.key ≠ (mk w.models.next).key)
      (hnew : (mk w.models.next).archivedAt = none) (hvalid : (mk w.models.next).Valid) :
      w.Edit none { w with models := w.models.insert mk hmk }
  | setModel {old new : ChatModelRow} (hold : old ∈ w.models) (hid : new.id = old.id)
      (hkey : new.key = old.key) (harchived : new.archivedAt = old.archivedAt)
      (hvalid : old.Valid → new.Valid) :
      w.Edit none { w with models := w.models.set new }
  | newUpstream {mk : ℕ → ModelUpstream} {hmk : ∀ id, (mk id).id = id}
      (hfree : ∀ upstream ∈ w.upstreams, upstream.archivedAt = none →
        upstream.key ≠ (mk w.upstreams.next).key)
      (hvalid : (mk w.upstreams.next).adapter ∈ adapters) :
      w.Edit none { w with upstreams := w.upstreams.insert mk hmk }
  | setUpstream {old new : ModelUpstream} (hold : old ∈ w.upstreams) (hid : new.id = old.id)
      (hkey : new.key = old.key) (harchived : new.archivedAt = old.archivedAt)
      (hvalid : old.adapter ∈ adapters → new.adapter ∈ adapters)
      (hroutes : ∀ route ∈ w.routes, route.upstreamId = old.id → route.archivedAt = none →
        Allowed old.adapter route.reasoningOutputs → Allowed new.adapter route.reasoningOutputs) :
      w.Edit none { w with upstreams := w.upstreams.set new }
  | newRoute {mk : ℕ → ModelRoute} {hmk : ∀ id, (mk id).id = id} {model : ChatModelRow}
      {upstream : ModelUpstream} (hmodel : model ∈ w.models) (hactive : model.archivedAt = none)
      (hupstream : upstream ∈ w.upstreams) (hactive' : upstream.archivedAt = none)
      (hmodelId : (mk w.routes.next).chatModelId = model.id)
      (hupstreamId : (mk w.routes.next).upstreamId = upstream.id)
      (hnew : (mk w.routes.next).archivedAt = none)
      (hfree : ∀ route ∈ w.routes, route.archivedAt = none →
        route.target ≠ (mk w.routes.next).target)
      (hallowed : Allowed upstream.adapter (mk w.routes.next).reasoningOutputs) :
      w.Edit none { w with routes := w.routes.insert mk hmk }
  | setRoute {old new : ModelRoute} (hold : old ∈ w.routes) (hid : new.id = old.id)
      (htarget : new.target = old.target) (hactive : old.archivedAt = none)
      (harchived : new.archivedAt = none)
      (hallowed : ∀ upstream ∈ w.upstreams, upstream.id = old.upstreamId →
        Allowed upstream.adapter old.reasoningOutputs →
          Allowed upstream.adapter new.reasoningOutputs) :
      w.Edit none { w with routes := w.routes.set new }
  | archiveModel {model : ChatModelRow} (hmodel : model ∈ w.models)
      (hactive : model.archivedAt = none) (now : ℕ) :
      w.Edit (some now) (w.modelArchived model now)
  | archiveUpstream {upstream : ModelUpstream} (hupstream : upstream ∈ w.upstreams)
      (hroutes : ∀ route ∈ w.routes, route.upstreamId = upstream.id → route.archivedAt = none →
        w.models.get? route.chatModelId = none) (now : ℕ) :
      w.Edit (some now)
        { w with upstreams := w.upstreams.set { upstream with archivedAt := some now } }
  | archiveRoute {route : ModelRoute} (hroute : route ∈ w.routes)
      (hactive : route.archivedAt = none) (now : ℕ) :
      w.Edit (some now) { w with routes := w.routes.set { route with archivedAt := some now } }
  | restoreModel {model : ChatModelRow} {archivedAt : ℕ} (hmodel : model ∈ w.models)
      (harchived : model.archivedAt = some archivedAt)
      (hfree : ∀ model' ∈ w.models, model'.archivedAt = none → model'.key ≠ model.key)
      (hallowed : ∀ row ∈ w.batch model.id archivedAt,
        Allowed row.2.adapter row.1.reasoningOutputs) :
      w.Edit none (w.modelRestored model archivedAt)
  | restoreUpstream {upstream : ModelUpstream} (hupstream : upstream ∈ w.upstreams)
      (hfree : ∀ upstream' ∈ w.upstreams, upstream'.archivedAt = none →
        upstream'.key ≠ upstream.key) :
      w.Edit none { w with upstreams := w.upstreams.set { upstream with archivedAt := none } }
  | restoreRoute {route : ModelRoute} {model : ChatModelRow} {upstream : ModelUpstream}
      (hroute : route ∈ w.routes) (harchived : route.archivedAt ≠ none)
      (hmodel : model ∈ w.models) (hmodelId : model.id = route.chatModelId)
      (hactive : model.archivedAt = none) (hupstream : upstream ∈ w.upstreams)
      (hupstreamId : upstream.id = route.upstreamId) (hactive' : upstream.archivedAt = none)
      (hfree : ∀ route' ∈ w.routes, route'.archivedAt = none → route'.target ≠ route.target)
      (hallowed : Allowed upstream.adapter route.reasoningOutputs) :
      w.Edit none { w with routes := w.routes.set { route with archivedAt := none } }

/-- A sequence of edits that archive nothing. -/
def Catalog.Edits : Catalog → Catalog → Prop := Relation.ReflTransGen fun w w' => w.Edit none w'

theorem Catalog.Edit.edits (h : w.Edit none w') : w.Edits w' := .single h

/-! ### The operations -/

theorem upsertChatModel_edit {input : ChatModelInput} {row : ChatModelRow}
    (h : upsertChatModel w input = .ok (row, w')) : w.Edit none w' := by
  simp only [upsertChatModel, bind_eq_ok_iff, ite_error_eq_ok_iff, not_not] at h
  obtain ⟨key, -, label, -, levels, hchecked, hprofile, -, reserve, -, h⟩ := h
  obtain ⟨rfl, hlevels⟩ := validateThinkingLevels_eq_ok_iff.mp hchecked
  cases hactive : w.activeModel? key with
  | none =>
    rw [hactive] at h
    cases h
    exact .newModel (Catalog.activeModel?_eq_none_iff.mp hactive) rfl ⟨hlevels, hprofile⟩
  | some =>
    rw [hactive] at h
    cases h
    obtain ⟨hmem, -, -⟩ := Catalog.of_activeModel?_eq_some hactive
    exact .setModel hmem rfl rfl rfl fun _ => ⟨hlevels, hprofile⟩

theorem upsertModelUpstream_edit {input : ModelUpstreamInput} {row : ModelUpstream}
    (h : upsertModelUpstream u fernet w input = .ok (row, w')) : w.Edit none w' := by
  simp only [upsertModelUpstream, bind_eq_ok_iff, ite_error_eq_ok_iff, not_not] at h
  obtain ⟨key, -, label, -, hadapter, baseUrl, -, h⟩ := h
  cases hactive : w.activeUpstream? key with
  | none =>
    simp only [hactive, ite_error_eq_ok_iff, bind_eq_ok_iff] at h
    obtain ⟨-, credential, -, h⟩ := h
    cases h
    exact .newUpstream (Catalog.activeUpstream?_eq_none_iff.mp hactive) hadapter
  | some =>
    simp only [hactive, bind_eq_ok_iff] at h
    obtain ⟨validated, hroutes, credential, -, h⟩ := h
    cases h
    obtain ⟨hmem, -, -⟩ := Catalog.of_activeUpstream?_eq_some hactive
    refine .setUpstream hmem rfl rfl rfl (fun _ => hadapter) fun route hroute hid hr _ => ?_
    exact allowed_of_validateRoutes hroutes route
      (Catalog.mem_activeRoutesTo.mpr ⟨hroute, hid, hr⟩)

theorem upsertModelRoute_edit {input : ModelRouteInput} {row : ModelRoute}
    (h : upsertModelRoute w input = .ok (row, w')) : w.Edit none w' := by
  simp only [upsertModelRoute, bind_eq_ok_iff, ite_error_eq_ok_iff] at h
  obtain ⟨-, model, hmodel, upstream, hupstream, remoteModel, -, outputs, houtputs, h⟩ := h
  obtain ⟨hmodel, hactive⟩ := Catalog.of_chatModelByKey hmodel
  obtain ⟨hupstream, hactive'⟩ := Catalog.of_upstreamByKey hupstream
  obtain ⟨rfl, hallowed⟩ := validateReasoningOutputs_eq_ok_iff.mp houtputs
  cases hroute : w.activeRoute? model.id upstream.id remoteModel with
  | none =>
    rw [hroute] at h hallowed
    cases h
    exact .newRoute hmodel hactive hupstream hactive' rfl rfl rfl
      (Catalog.activeRoute?_eq_none_iff.mp hroute) hallowed
  | some =>
    rw [hroute] at h hallowed
    cases h
    obtain ⟨hmem, htarget, harchived⟩ := Catalog.of_activeRoute?_eq_some hroute
    refine .setRoute hmem rfl rfl harchived harchived fun upstream' hupstream' hid _ => ?_
    have hsame : upstream' = upstream := by
      refine Table.eq_of_key_eq hupstream' hupstream (hid.trans ?_)
      exact congrArg (fun target => target.2.1) htarget
    rw [hsame]
    exact hallowed

theorem setChatModelEnabled_edit {key : List Char} {enabled : Bool} {row : ChatModelRow}
    (h : setChatModelEnabled w key enabled = .ok (row, w')) : w.Edit none w' := by
  obtain ⟨model, hmodel, h⟩ := bind_eq_ok_iff.mp h
  cases h
  exact .setModel (Catalog.of_chatModelByKey hmodel).1 rfl rfl rfl id

theorem setModelUpstreamEnabled_edit {key : List Char} {enabled : Bool} {row : ModelUpstream}
    (h : setModelUpstreamEnabled w key enabled = .ok (row, w')) : w.Edit none w' := by
  obtain ⟨upstream, hupstream, h⟩ := bind_eq_ok_iff.mp h
  obtain ⟨validated, -, h⟩ := bind_eq_ok_iff.mp h
  cases h
  exact .setUpstream (Catalog.of_upstreamByKey hupstream).1 rfl rfl rfl id
    fun route _ _ _ hallowed => hallowed

theorem setModelRouteEnabled_edit {modelKey upstreamKey upstreamModel : List Char}
    {enabled : Bool} {row : ModelRoute}
    (h : setModelRouteEnabled w modelKey upstreamKey upstreamModel enabled = .ok (row, w')) :
    w.Edit none w' := by
  obtain ⟨⟨route, upstream⟩, hroute, h⟩ := bind_eq_ok_iff.mp h
  obtain ⟨validated, -, h⟩ := bind_eq_ok_iff.mp h
  cases h
  obtain ⟨hmem, hactive, -, -⟩ := Catalog.of_activeRoute hroute
  exact .setRoute hmem rfl rfl hactive hactive fun upstream _ _ hallowed => hallowed

theorem setDatabaseCatalogEnabled_edit {enabled : Bool} {settings : Settings}
    (h : setDatabaseCatalogEnabled u fernet w enabled settings = .ok w') : w.Edit none w' := by
  cases enabled with
  | false =>
    cases h
    exact .source false
  | true =>
    simp only [setDatabaseCatalogEnabled, if_true, bind_eq_ok_iff, ite_error_eq_ok_iff] at h
    obtain ⟨models, -, -, checked, -, checked', -, h⟩ := h
    cases h
    exact .source true

theorem archiveChatModel_eq_ok_iff {key : List Char} {now : ℕ} {row : ChatModelRow} :
    archiveChatModel w key now = .ok (row, w') ↔
      ∃ model, w.chatModelByKey key = .ok model ∧ row = { model with archivedAt := some now } ∧
        w' = w.modelArchived model now := by
  simp only [archiveChatModel, bind_eq_ok_iff, Except.ok.injEq, Prod.mk.injEq]
  refine exists_congr fun model => and_congr_right fun _ => ?_
  rw [eq_comm, eq_comm (b := w')]

theorem archiveChatModel_edit {key : List Char} {now : ℕ} {row : ChatModelRow}
    (h : archiveChatModel w key now = .ok (row, w')) : w.Edit (some now) w' := by
  obtain ⟨model, hmodel, rfl, rfl⟩ := archiveChatModel_eq_ok_iff.mp h
  obtain ⟨hmem, hactive⟩ := Catalog.of_chatModelByKey hmodel
  exact .archiveModel hmem hactive now

/-- An upstream is archived when the join of its unarchived routes with their models is empty. -/
theorem archiveModelUpstream_edit {key : List Char} {now : ℕ} {row : ModelUpstream}
    (h : archiveModelUpstream w key now = .ok (row, w')) : w.Edit (some now) w' := by
  obtain ⟨upstream, hupstream, h⟩ := bind_eq_ok_iff.mp h
  cases hblocking : blockingRoutes w upstream with
  | cons =>
    rw [hblocking] at h
    cases h
  | nil =>
    rw [hblocking] at h
    cases h
    refine .archiveUpstream (Catalog.of_upstreamByKey hupstream).1
      (fun route hroute hid hr => ?_) now
    have hlength := congrArg List.length hblocking
    simp only [blockingRoutes, List.length_map, List.length_insertionSort, List.length_nil,
      List.length_eq_zero_iff, List.filterMap_eq_nil_iff, Option.map_eq_none_iff] at hlength
    exact hlength route (Catalog.mem_activeRoutesTo.mpr ⟨hroute, hid, hr⟩)

theorem archiveModelRoute_edit {modelKey upstreamKey upstreamModel : List Char} {now : ℕ}
    {row : ModelRoute}
    (h : archiveModelRoute w modelKey upstreamKey upstreamModel now = .ok (row, w')) :
    w.Edit (some now) w' := by
  obtain ⟨⟨route, upstream⟩, hroute, h⟩ := bind_eq_ok_iff.mp h
  cases h
  obtain ⟨hmem, hactive, -, -⟩ := Catalog.of_activeRoute hroute
  exact .archiveRoute hmem hactive now

/-- The archiving of an upstream or of a route leaves the models alone. -/
theorem models_of_archiveModelUpstream {key : List Char} {now : ℕ} {row : ModelUpstream}
    (h : archiveModelUpstream w key now = .ok (row, w')) : w'.models = w.models := by
  obtain ⟨upstream, -, h⟩ := bind_eq_ok_iff.mp h
  cases hblocking : blockingRoutes w upstream with
  | cons =>
    rw [hblocking] at h
    cases h
  | nil =>
    rw [hblocking] at h
    cases h
    rfl

theorem models_of_archiveModelRoute {modelKey upstreamKey upstreamModel : List Char} {now : ℕ}
    {row : ModelRoute}
    (h : archiveModelRoute w modelKey upstreamKey upstreamModel now = .ok (row, w')) :
    w'.models = w.models := by
  obtain ⟨found, -, h⟩ := bind_eq_ok_iff.mp h
  cases h
  rfl

theorem requireArchived_eq_ok_iff {archivedAt : Option ℕ} {time : ℕ} :
    requireArchived archivedAt = .ok time ↔ archivedAt = some time := by
  cases archivedAt <;> simp [requireArchived]

/-- A model is restored when it is archived and its key is free, with the routes of its batch. -/
theorem restoreChatModel_eq_ok {model row : ChatModelRow}
    (h : restoreChatModel w model = .ok (row, w')) :
    ∃ archivedAt, model.archivedAt = some archivedAt ∧ w.activeModel? model.key = none ∧
      (∀ entry ∈ w.batch model.id archivedAt, Allowed entry.2.adapter entry.1.reasoningOutputs) ∧
      row = { model with archivedAt := none } ∧ w' = w.modelRestored model archivedAt := by
  simp only [restoreChatModel, bind_eq_ok_iff, ite_error_eq_ok_iff, Option.not_isSome_iff_eq_none]
    at h
  obtain ⟨archivedAt, harchived, hfree, validated, hbatch, h⟩ := h
  cases h
  refine ⟨archivedAt, requireArchived_eq_ok_iff.mp harchived, hfree,
    fun entry hentry => ?_, rfl, rfl⟩
  obtain ⟨outputs, -, houtputs⟩ := (Except.forall₂_of_mapM_eq_ok hbatch).flip.exists_left hentry
  exact (validateReasoningOutputs_eq_ok_iff.mp houtputs).2

theorem restoreModelUpstream_edit {upstream row : ModelUpstream}
    (hupstream : upstream ∈ w.upstreams)
    (h : restoreModelUpstream w upstream = .ok (row, w')) : w.Edit none w' := by
  simp only [restoreModelUpstream, bind_eq_ok_iff, ite_error_eq_ok_iff,
    Option.not_isSome_iff_eq_none] at h
  obtain ⟨archivedAt, -, hfree, h⟩ := h
  cases h
  exact .restoreUpstream hupstream (Catalog.activeUpstream?_eq_none_iff.mp hfree)

theorem restoreModelRoute_edit {route row : ModelRoute} (hroute : route ∈ w.routes)
    (h : restoreModelRoute w route = .ok (row, w')) : w.Edit none w' := by
  obtain ⟨archivedAt, harchived, h⟩ := bind_eq_ok_iff.mp h
  have harchived : route.archivedAt ≠ none := by
    rw [requireArchived_eq_ok_iff.mp harchived]
    exact Option.some_ne_none archivedAt
  split at h
  · rename_i model upstream hmodel hupstream
    simp only [ite_error_eq_ok_iff, bind_eq_ok_iff, not_or, not_not,
      Option.not_isSome_iff_eq_none] at h
    obtain ⟨⟨hactive, hactive'⟩, hfree, outputs, houtputs, h⟩ := h
    cases h
    exact .restoreRoute hroute harchived (Table.mem_of_get? hmodel) (Table.key_of_get? hmodel)
      hactive (Table.mem_of_get? hupstream) (Table.key_of_get? hupstream) hactive'
      (Catalog.activeRoute?_eq_none_iff.mp hfree) (validateReasoningOutputs_eq_ok_iff.mp houtputs).2
  · cases h

/-- What a model that is restored by its reference was before. -/
theorem restoreArchived_chatModel {ref : List Char} {row : ChatModelRow}
    (h : restoreArchived w ref = .ok (.chatModel row, w')) :
    ∃ model ∈ w.models, row = { model with archivedAt := none } ∧
      restoreChatModel w model = .ok (row, w') := by
  unfold restoreArchived at h
  split at h
  · cases h
  · rename_i id hid
    cases hget : w.models.get? id with
    | none =>
      rw [hget] at h
      cases h
    | some model =>
      simp only [hget, map_eq_ok_iff, Prod.mk.injEq, CatalogRow.chatModel.injEq] at h
      obtain ⟨⟨restored, catalog⟩, hrestore, rfl, rfl⟩ := h
      obtain ⟨archivedAt, -, -, -, hrow, -⟩ := restoreChatModel_eq_ok hrestore
      exact ⟨model, Table.mem_of_get? hget, hrow, hrestore⟩
  · rename_i id hid
    cases hget : w.upstreams.get? id <;> simp [hget, map_eq_ok_iff] at h
  · rename_i id hid
    cases hget : w.routes.get? id <;> simp [hget, map_eq_ok_iff] at h

theorem restoreArchived_edit {ref : List Char} {row : CatalogRow}
    (h : restoreArchived w ref = .ok (row, w')) : w.Edit none w' := by
  unfold restoreArchived at h
  split at h
  · cases h
  · rename_i id hid
    cases hget : w.models.get? id with
    | none =>
      rw [hget] at h
      cases h
    | some =>
      simp only [hget, map_eq_ok_iff, Prod.mk.injEq] at h
      obtain ⟨⟨restored, catalog⟩, hrestore, -, rfl⟩ := h
      obtain ⟨archivedAt, harchived, hfree, hallowed, -, rfl⟩ := restoreChatModel_eq_ok hrestore
      exact .restoreModel (Table.mem_of_get? hget) harchived
        (Catalog.activeModel?_eq_none_iff.mp hfree) hallowed
  · rename_i id hid
    cases hget : w.upstreams.get? id with
    | none =>
      rw [hget] at h
      cases h
    | some =>
      simp only [hget, map_eq_ok_iff, Prod.mk.injEq] at h
      obtain ⟨⟨restored, catalog⟩, hrestore, -, rfl⟩ := h
      exact restoreModelUpstream_edit (Table.mem_of_get? hget) hrestore
  · rename_i id hid
    cases hget : w.routes.get? id with
    | none =>
      rw [hget] at h
      cases h
    | some =>
      simp only [hget, map_eq_ok_iff, Prod.mk.injEq] at h
      obtain ⟨⟨restored, catalog⟩, hrestore, -, rfl⟩ := h
      exact restoreModelRoute_edit (Table.mem_of_get? hget) hrestore

/-! ### The import -/

theorem importModel_edits {settings : Settings} {upstreamKey : List Char} {outputs : List String}
    {model : ChatModel} {sortOrder : ℕ}
    (h : importModel settings upstreamKey outputs w model sortOrder = .ok w') : w.Edits w' := by
  obtain ⟨⟨row, w₁⟩, hmodel, h⟩ := bind_eq_ok_iff.mp h
  obtain ⟨⟨route, w₂⟩, hroute, h⟩ := bind_eq_ok_iff.mp h
  cases h
  exact (upsertChatModel_edit hmodel).edits.tail (upsertModelRoute_edit hroute)

/-- The models of a loop of the import are imported one after the other. -/
theorem importModels_edits {settings : Settings} {upstreamKey : List Char} {outputs : List String}
    {entries : List (ChatModel × ℕ)} {model : ChatModel → ChatModel} {order : ℕ → ℕ}
    (h : entries.foldlM (fun w entry => importModel settings upstreamKey outputs w (model entry.1)
      (order entry.2)) w = .ok w') : w.Edits w' := by
  refine Except.foldlM_invariant (P := fun c => w.Edits c) (fun entry _ c c' hc hstep => ?_) .refl h
  exact hc.trans (importModel_edits hstep)

theorem importEnvironmentCatalog_edits {settings : Settings} {nonce nonce' : ℕ}
    (h : importEnvironmentCatalog u fernet w settings nonce nonce' = .ok w') : w.Edits w' := by
  obtain ⟨cipher, -, h⟩ := bind_eq_ok_iff.mp h
  obtain ⟨⟨row, w₁⟩, hdeepseek, h⟩ := bind_eq_ok_iff.mp h
  obtain ⟨models, -, h⟩ := bind_eq_ok_iff.mp h
  obtain ⟨w₂, hmodels, h⟩ := bind_eq_ok_iff.mp h
  have himported : w₁.Edits w₂ := @importModels_edits _ _ _ _ _ _ id id hmodels
  have hfirst : w.Edits w₂ := (upsertModelUpstream_edit hdeepseek).edits.trans himported
  by_cases havailable : settings.openaiAvailable
  · rw [if_pos havailable] at h
    obtain ⟨openrouter, -, h⟩ := bind_eq_ok_iff.mp h
    obtain ⟨⟨row', w₃⟩, hopenai, h⟩ := bind_eq_ok_iff.mp h
    exact (hfirst.tail (upsertModelUpstream_edit hopenai)).trans (importModels_edits h)
  · rw [if_neg havailable] at h
    cases h
    exact hfirst

/-! ### All operations -/

theorem exists_row {α : Type} {x : Except CatalogError (α × Catalog)}
    (h : x.map Prod.snd = .ok w') : ∃ row, x = .ok (row, w') := by
  obtain ⟨⟨row, catalog⟩, hx, rfl⟩ := map_eq_ok_iff.mp h
  exact ⟨row, hx⟩

/-- **Every operation is an edit** that archives rows at the time it carries, or a sequence of
edits that archive nothing. -/
theorem perform_edits {op : Op} (h : perform u fernet w op = .ok w') :
    op.stamp = none ∧ w.Edits w' ∨ ∃ now, op.stamp = some now ∧ w.Edit (some now) w' := by
  cases op with
  | upsertChatModel =>
    obtain ⟨row, h⟩ := exists_row h
    exact .inl ⟨rfl, (upsertChatModel_edit h).edits⟩
  | upsertModelUpstream =>
    obtain ⟨row, h⟩ := exists_row h
    exact .inl ⟨rfl, (upsertModelUpstream_edit h).edits⟩
  | upsertModelRoute =>
    obtain ⟨row, h⟩ := exists_row h
    exact .inl ⟨rfl, (upsertModelRoute_edit h).edits⟩
  | setChatModelEnabled =>
    obtain ⟨row, h⟩ := exists_row h
    exact .inl ⟨rfl, (setChatModelEnabled_edit h).edits⟩
  | setModelUpstreamEnabled =>
    obtain ⟨row, h⟩ := exists_row h
    exact .inl ⟨rfl, (setModelUpstreamEnabled_edit h).edits⟩
  | setModelRouteEnabled =>
    obtain ⟨row, h⟩ := exists_row h
    exact .inl ⟨rfl, (setModelRouteEnabled_edit h).edits⟩
  | setDatabaseCatalogEnabled =>
    exact .inl ⟨rfl, (setDatabaseCatalogEnabled_edit h).edits⟩
  | archiveChatModel key now =>
    obtain ⟨row, h⟩ := exists_row h
    exact .inr ⟨now, rfl, archiveChatModel_edit h⟩
  | archiveModelUpstream key now =>
    obtain ⟨row, h⟩ := exists_row h
    exact .inr ⟨now, rfl, archiveModelUpstream_edit h⟩
  | archiveModelRoute modelKey upstreamKey upstreamModel now =>
    obtain ⟨row, h⟩ := exists_row h
    exact .inr ⟨now, rfl, archiveModelRoute_edit h⟩
  | restoreArchived =>
    obtain ⟨row, h⟩ := exists_row h
    exact .inl ⟨rfl, (restoreArchived_edit h).edits⟩
  | importEnvironmentCatalog =>
    exact .inl ⟨rfl, importEnvironmentCatalog_edits h⟩

end IChat.ModelCatalog
