import IChat.ModelCatalog.Endpoints

/-!
# Snapshots and the rows they are read back with

A run keeps a snapshot of the chat model that it was created with. `_parse_snapshot` checks it
again, and `resolve_run_model_runtime` looks up its route and the upstream of that route as they are
by then. The checks of the writers are those of the readers: `Catalog.Written` says what every row
of the tables has been checked for, `Edit.upstreamKeysKept` that an upstream keeps its key, and
`snapshot_resolves` that a snapshot is therefore resolved, whatever is edited in the meantime, to
what the model was offered with.
-/

namespace IChat.ModelCatalog

open StepSystem Text

variable {u : Url.UnicodeData} {fernet : List Char → Option Fernet} {w w' : Catalog}
  {stamp : Option ℕ}

/-! ### What the rows were checked for -/

/-- The columns of a model that a snapshot has. -/
structure ChatModelRow.Written (model : ChatModelRow) : Prop where
  key : model.key ≠ []
  images : model.supportsImageInput = model.imageTokenReserve.isSome
  reserve : ∀ reserve, model.imageTokenReserve = some reserve → 0 < reserve

structure ModelUpstream.Written (upstream : ModelUpstream) : Prop where
  key : upstream.key ≠ []
  baseUrl : upstream.baseUrl ≠ []

structure ModelRoute.Written (route : ModelRoute) : Prop where
  id : 0 < route.id
  upstreamModel : route.upstreamModel ≠ []

/-- Every row was checked when it was written, and the next route does not get the identity 0. -/
structure Catalog.Written (w : Catalog) : Prop where
  models : ∀ model ∈ w.models, model.Written
  upstreams : ∀ upstream ∈ w.upstreams, upstream.Written
  routes : ∀ route ∈ w.routes, route.Written
  next : 0 < w.routes.next

theorem written_empty : Catalog.empty.Written where
  models _ h := absurd h List.not_mem_nil
  upstreams _ h := absurd h List.not_mem_nil
  routes _ h := absurd h List.not_mem_nil
  next := Nat.one_pos

namespace Catalog.Written

theorem setModel (h : w.Written) {model : ChatModelRow} (hmodel : model.Written) :
    Written { w with models := w.models.set model } :=
  { h with models := Table.forall_mem_set h.models hmodel }

theorem insertModel (h : w.Written) {mk : ℕ → ChatModelRow} {hmk : ∀ id, (mk id).id = id}
    (hmodel : (mk w.models.next).Written) :
    Written { w with models := w.models.insert mk hmk } :=
  have hmodels : ∀ model ∈ w.models.insert mk hmk, model.Written :=
    Table.forall_mem_insert h.models hmodel
  { h with models := hmodels }

theorem setUpstream (h : w.Written) {upstream : ModelUpstream} (hupstream : upstream.Written) :
    Written { w with upstreams := w.upstreams.set upstream } :=
  { h with upstreams := Table.forall_mem_set h.upstreams hupstream }

theorem insertUpstream (h : w.Written) {mk : ℕ → ModelUpstream} {hmk : ∀ id, (mk id).id = id}
    (hupstream : (mk w.upstreams.next).Written) :
    Written { w with upstreams := w.upstreams.insert mk hmk } :=
  have hupstreams : ∀ upstream ∈ w.upstreams.insert mk hmk, upstream.Written :=
    Table.forall_mem_insert h.upstreams hupstream
  { h with upstreams := hupstreams }

theorem setRoute (h : w.Written) {route : ModelRoute} (hroute : route.Written) :
    Written { w with routes := w.routes.set route } :=
  { h with routes := Table.forall_mem_set h.routes hroute }

theorem insertRoute (h : w.Written) {mk : ℕ → ModelRoute} {hmk : ∀ id, (mk id).id = id}
    (hroute : (mk w.routes.next).upstreamModel ≠ []) :
    Written { w with routes := w.routes.insert mk hmk } :=
  have hroutes : ∀ route ∈ w.routes.insert mk hmk, route.Written :=
    Table.forall_mem_insert h.routes ⟨by rw [hmk]; exact h.next, hroute⟩
  { h with routes := hroutes, next := Nat.succ_pos _ }

/-- Archiving and restoring rewrite the time of every route, and nothing else. -/
theorem mapRoutes (h : w.Written) {models : Table ChatModelRow ChatModelRow.id}
    (hmodels : ∀ model ∈ models, model.Written) (f : ModelRoute → ModelRoute)
    (hf : ∀ route, (f route).id = route.id)
    (hsame : ∀ route, (f route).upstreamModel = route.upstreamModel) :
    Written { w with models := models, routes := w.routes.map f hf } where
  models := hmodels
  upstreams := h.upstreams
  routes route hroute := by
    obtain ⟨old, hold, rfl⟩ := (@Table.mem_map _ _ w.routes route f hf).mp hroute
    exact ⟨by rw [hf]; exact (h.routes old hold).id,
      by rw [hsame]; exact (h.routes old hold).upstreamModel⟩
  next := h.next

end Catalog.Written

/-! ### The checks of the operations -/

theorem ne_nil_of_validateKey {value key : List Char} {field : String}
    (h : validateKey value field = .ok key) : key ≠ [] := by
  rw [validateKey] at h
  split at h
  · split_ifs at h
    rw [← Except.ok.inj h]
    exact List.cons_ne_nil _ _
  · cases h

theorem ne_nil_of_requiredText {value text : List Char} {field : String} {maxLength : ℕ}
    (h : requiredText value field maxLength = .ok text) : text ≠ [] := by
  rw [requiredText] at h
  simp only [ite_error_eq_ok_iff, Except.ok.injEq] at h
  rw [← h.2.2.2]
  exact h.1

/-- A base URL has a scheme. -/
theorem ne_nil_of_validateBaseUrl {value baseUrl : List Char}
    (h : validateBaseUrl u value = .ok baseUrl) : baseUrl ≠ [] := by
  rintro rfl
  rw [validateBaseUrl] at h
  split at h
  · cases h
  · next parsed hparsed =>
    rw [ite_error_eq_ok_iff, Except.ok.injEq] at h
    obtain ⟨hvalid, hnil⟩ := h
    rw [hnil] at hparsed
    have hscheme : parsed.scheme = [] := by
      simp only [Url.urlsplit] at hparsed
      split_ifs at hparsed
      rw [← Option.some.inj hparsed]
      rfl
    refine hvalid (.inl ?_)
    rw [hscheme]
    decide

/-- The reserve goes with the images, and is positive. -/
theorem of_imageReserve {input : ChatModelInput} {reserve : Option ℤ}
    (h : imageReserve input = .ok reserve) :
    input.supportsImageInput = reserve.isSome ∧ ∀ tokens, reserve = some tokens → 0 < tokens := by
  rw [imageReserve] at h
  split_ifs at h with hsupports
  · split at h
    · cases h
    · next tokens _ =>
      split_ifs at h with hle
      have hsome : reserve = some tokens := by
        split at h
        · exact (Except.ok.inj h).symm
        · obtain ⟨_, -, h⟩ := bind_eq_ok_iff.mp h
          exact (Except.ok.inj h).symm
      rw [hsome, hsupports]
      refine ⟨rfl, fun positive heq => ?_⟩
      rw [← Option.some.inj heq]
      omega
  · rw [← Except.ok.inj h, Bool.eq_false_of_not_eq_true hsupports]
    exact ⟨rfl, nofun⟩

theorem upsertChatModel_written {input : ChatModelInput} {row : ChatModelRow} (hw : w.Written)
    (h : upsertChatModel w input = .ok (row, w')) : w'.Written := by
  simp only [upsertChatModel, bind_eq_ok_iff, ite_error_eq_ok_iff] at h
  obtain ⟨key, hkey, label, -, levels, -, -, -, reserve, hreserve, h⟩ := h
  obtain ⟨himages, hpositive⟩ := of_imageReserve hreserve
  cases hactive : w.activeModel? key with
  | none =>
    rw [hactive] at h
    cases h
    exact hw.insertModel ⟨ne_nil_of_validateKey hkey, himages, hpositive⟩
  | some model =>
    rw [hactive] at h
    cases h
    obtain ⟨hmem, -, -⟩ := Catalog.of_activeModel?_eq_some hactive
    exact hw.setModel ⟨(hw.models model hmem).key, himages, hpositive⟩

theorem upsertModelUpstream_written {input : ModelUpstreamInput} {row : ModelUpstream}
    (hw : w.Written) (h : upsertModelUpstream u fernet w input = .ok (row, w')) : w'.Written := by
  simp only [upsertModelUpstream, bind_eq_ok_iff, ite_error_eq_ok_iff] at h
  obtain ⟨key, hkey, label, -, -, baseUrl, hbaseUrl, h⟩ := h
  cases hactive : w.activeUpstream? key with
  | none =>
    simp only [hactive, ite_error_eq_ok_iff, bind_eq_ok_iff] at h
    obtain ⟨-, credential, -, h⟩ := h
    cases h
    exact hw.insertUpstream ⟨ne_nil_of_validateKey hkey, ne_nil_of_validateBaseUrl hbaseUrl⟩
  | some upstream =>
    simp only [hactive, bind_eq_ok_iff] at h
    obtain ⟨validated, -, credential, -, h⟩ := h
    cases h
    obtain ⟨hmem, -, -⟩ := Catalog.of_activeUpstream?_eq_some hactive
    exact hw.setUpstream ⟨(hw.upstreams upstream hmem).key, ne_nil_of_validateBaseUrl hbaseUrl⟩

theorem upsertModelRoute_written {input : ModelRouteInput} {row : ModelRoute} (hw : w.Written)
    (h : upsertModelRoute w input = .ok (row, w')) : w'.Written := by
  simp only [upsertModelRoute, bind_eq_ok_iff, ite_error_eq_ok_iff] at h
  obtain ⟨-, model, -, upstream, -, remoteModel, hremote, outputs, -, h⟩ := h
  cases hroute : w.activeRoute? model.id upstream.id remoteModel with
  | none =>
    rw [hroute] at h
    cases h
    exact hw.insertRoute (ne_nil_of_requiredText hremote)
  | some route =>
    rw [hroute] at h
    cases h
    obtain ⟨hmem, -, -⟩ := Catalog.of_activeRoute?_eq_some hroute
    exact hw.setRoute ⟨(hw.routes route hmem).id, (hw.routes route hmem).upstreamModel⟩

/-- A row whose other columns stay. -/
theorem ChatModelRow.Written.same {model model' : ChatModelRow} (h : model.Written)
    (hkey : model'.key = model.key) (himages : model'.supportsImageInput = model.supportsImageInput)
    (hreserve : model'.imageTokenReserve = model.imageTokenReserve) : model'.Written :=
  ⟨hkey ▸ h.key, by rw [himages, hreserve]; exact h.images, fun tokens htokens =>
    h.reserve tokens (hreserve ▸ htokens)⟩

theorem importModel_written {settings : Settings} {upstreamKey : List Char}
    {outputs : List String} {model : ChatModel} {sortOrder : ℕ} (hw : w.Written)
    (h : importModel settings upstreamKey outputs w model sortOrder = .ok w') : w'.Written := by
  obtain ⟨⟨row, w₁⟩, hmodel, h⟩ := bind_eq_ok_iff.mp h
  obtain ⟨⟨route, w₂⟩, hroute, h⟩ := bind_eq_ok_iff.mp h
  cases h
  exact upsertModelRoute_written (upsertChatModel_written hw hmodel) hroute

theorem importEnvironmentCatalog_written {settings : Settings} {nonce nonce' : ℕ} (hw : w.Written)
    (h : importEnvironmentCatalog u fernet w settings nonce nonce' = .ok w') : w'.Written := by
  obtain ⟨cipher, -, h⟩ := bind_eq_ok_iff.mp h
  obtain ⟨⟨row, w₁⟩, hdeepseek, h⟩ := bind_eq_ok_iff.mp h
  obtain ⟨models, -, h⟩ := bind_eq_ok_iff.mp h
  obtain ⟨w₂, hmodels, h⟩ := bind_eq_ok_iff.mp h
  have hdeepseekModels : w₂.Written :=
    Except.foldlM_invariant (fun _ _ _ _ hc hstep => importModel_written hc hstep)
      (upsertModelUpstream_written hw hdeepseek) hmodels
  by_cases havailable : settings.openaiAvailable
  · rw [if_pos havailable] at h
    obtain ⟨openrouter, -, h⟩ := bind_eq_ok_iff.mp h
    obtain ⟨⟨row', w₃⟩, hopenai, h⟩ := bind_eq_ok_iff.mp h
    exact Except.foldlM_invariant (fun _ _ _ _ hc hstep => importModel_written hc hstep)
      (upsertModelUpstream_written hdeepseekModels hopenai) h
  · rw [if_neg havailable] at h
    cases h
    exact hdeepseekModels

theorem restoreArchived_written {ref : List Char} {row : CatalogRow} (hw : w.Written)
    (h : restoreArchived w ref = .ok (row, w')) : w'.Written := by
  unfold restoreArchived at h
  split at h
  · cases h
  · next id _ =>
    cases hget : w.models.get? id with
    | none =>
      rw [hget] at h
      cases h
    | some model =>
      simp only [hget, map_eq_ok_iff, Prod.mk.injEq] at h
      obtain ⟨⟨restored, catalog⟩, hrestore, -, rfl⟩ := h
      obtain ⟨archivedAt, -, -, -, -, rfl⟩ := restoreChatModel_eq_ok hrestore
      have hrestored : ChatModelRow.Written { model with archivedAt := none } :=
        (hw.models model (Table.mem_of_get? hget)).same rfl rfl rfl
      exact hw.mapRoutes (Table.forall_mem_set hw.models hrestored)
        (ModelRoute.restoredWith (w.batch model.id archivedAt)) (fun _ => rfl) fun _ => rfl
  · next id _ =>
    cases hget : w.upstreams.get? id with
    | none =>
      rw [hget] at h
      cases h
    | some upstream =>
      simp only [hget, map_eq_ok_iff, Prod.mk.injEq] at h
      obtain ⟨⟨restored, catalog⟩, hrestore, -, rfl⟩ := h
      simp only [restoreModelUpstream, bind_eq_ok_iff, ite_error_eq_ok_iff] at hrestore
      obtain ⟨archivedAt, -, -, hrestore⟩ := hrestore
      cases hrestore
      have hupstream := hw.upstreams upstream (Table.mem_of_get? hget)
      exact hw.setUpstream ⟨hupstream.key, hupstream.baseUrl⟩
  · next id _ =>
    cases hget : w.routes.get? id with
    | none =>
      rw [hget] at h
      cases h
    | some route =>
      simp only [hget, map_eq_ok_iff, Prod.mk.injEq] at h
      obtain ⟨⟨restored, catalog⟩, hrestore, -, rfl⟩ := h
      obtain ⟨archivedAt, -, hrestore⟩ := bind_eq_ok_iff.mp hrestore
      split at hrestore
      · simp only [ite_error_eq_ok_iff, bind_eq_ok_iff] at hrestore
        obtain ⟨-, -, outputs, -, hrestore⟩ := hrestore
        cases hrestore
        have hroute := hw.routes route (Table.mem_of_get? hget)
        exact hw.setRoute ⟨hroute.id, hroute.upstreamModel⟩
      · cases hrestore

/-- **Step**: whatever an operation writes was checked. -/
theorem perform_written {op : Op} (hw : w.Written) (h : perform u fernet w op = .ok w') :
    w'.Written := by
  -- the upserts and the two batches write texts, the rest keeps those of a row
  cases op with
  | upsertChatModel =>
    obtain ⟨row, h⟩ := exists_row h
    exact upsertChatModel_written hw h
  | upsertModelUpstream =>
    obtain ⟨row, h⟩ := exists_row h
    exact upsertModelUpstream_written hw h
  | upsertModelRoute =>
    obtain ⟨row, h⟩ := exists_row h
    exact upsertModelRoute_written hw h
  | setChatModelEnabled =>
    obtain ⟨row, h⟩ := exists_row h
    obtain ⟨model, hmodel, h⟩ := bind_eq_ok_iff.mp h
    cases h
    exact hw.setModel ((hw.models model (Catalog.of_chatModelByKey hmodel).1).same rfl rfl rfl)
  | setModelUpstreamEnabled key =>
    obtain ⟨row, h⟩ := exists_row h
    obtain ⟨upstream, hupstream, h⟩ := bind_eq_ok_iff.mp h
    obtain ⟨validated, -, h⟩ := bind_eq_ok_iff.mp h
    cases h
    have hold := hw.upstreams upstream (Catalog.of_upstreamByKey hupstream).1
    exact hw.setUpstream ⟨hold.key, hold.baseUrl⟩
  | setModelRouteEnabled modelKey upstreamKey upstreamModel =>
    obtain ⟨row, h⟩ := exists_row h
    obtain ⟨⟨route, upstream⟩, hroute, h⟩ := bind_eq_ok_iff.mp h
    obtain ⟨validated, -, h⟩ := bind_eq_ok_iff.mp h
    cases h
    have hold := hw.routes route (Catalog.of_activeRoute hroute).1
    exact hw.setRoute ⟨hold.id, hold.upstreamModel⟩
  | setDatabaseCatalogEnabled enabled =>
    cases enabled with
    | false =>
      cases h
      exact ⟨hw.models, hw.upstreams, hw.routes, hw.next⟩
    | true =>
      simp only [perform, setDatabaseCatalogEnabled, if_true, bind_eq_ok_iff,
        ite_error_eq_ok_iff] at h
      obtain ⟨models, -, -, checked, -, checked', -, h⟩ := h
      cases h
      exact ⟨hw.models, hw.upstreams, hw.routes, hw.next⟩
  | archiveChatModel key now =>
    obtain ⟨row, h⟩ := exists_row h
    obtain ⟨model, hmodel, -, rfl⟩ := archiveChatModel_eq_ok_iff.mp h
    have harchived : ChatModelRow.Written { model with archivedAt := some now } :=
      (hw.models model (Catalog.of_chatModelByKey hmodel).1).same rfl rfl rfl
    exact hw.mapRoutes (Table.forall_mem_set hw.models harchived)
      (ModelRoute.archivedWith model.id now) (fun _ => rfl) fun _ => rfl
  | archiveModelUpstream key =>
    obtain ⟨row, h⟩ := exists_row h
    obtain ⟨upstream, hupstream, h⟩ := bind_eq_ok_iff.mp h
    split at h
    · cases h
      have hold := hw.upstreams upstream (Catalog.of_upstreamByKey hupstream).1
      exact hw.setUpstream ⟨hold.key, hold.baseUrl⟩
    · cases h
  | archiveModelRoute modelKey upstreamKey upstreamModel =>
    obtain ⟨row, h⟩ := exists_row h
    obtain ⟨⟨route, upstream⟩, hroute, h⟩ := bind_eq_ok_iff.mp h
    cases h
    have hold := hw.routes route (Catalog.of_activeRoute hroute).1
    exact hw.setRoute ⟨hold.id, hold.upstreamModel⟩
  | restoreArchived =>
    obtain ⟨row, h⟩ := exists_row h
    exact restoreArchived_written hw h
  | importEnvironmentCatalog => exact importEnvironmentCatalog_written hw h

/-! ### Upstreams keep their keys -/

namespace Catalog

/-- Every upstream is still there, under its key. -/
def UpstreamKeysKept (w w' : Catalog) : Prop :=
  ∀ upstream ∈ w.upstreams, ∃ upstream' ∈ w'.upstreams,
    upstream'.id = upstream.id ∧ upstream'.key = upstream.key

theorem UpstreamKeysKept.refl (w : Catalog) : w.UpstreamKeysKept w :=
  fun upstream hupstream => ⟨upstream, hupstream, rfl, rfl⟩

theorem UpstreamKeysKept.trans {w'' : Catalog} (h : w.UpstreamKeysKept w')
    (h' : w'.UpstreamKeysKept w'') : w.UpstreamKeysKept w'' := by
  intro upstream hupstream
  obtain ⟨upstream', hupstream', hid, hkey⟩ := h upstream hupstream
  obtain ⟨upstream'', hupstream'', hid', hkey'⟩ := h' upstream' hupstream'
  exact ⟨upstream'', hupstream'', hid'.trans hid, hkey'.trans hkey⟩

/-- An upstream that is written back under its key. -/
theorem upstreamKeysKept_set {old new : ModelUpstream} (hold : old ∈ w.upstreams)
    (hid : new.id = old.id) (hkey : new.key = old.key) :
    w.UpstreamKeysKept { w with upstreams := w.upstreams.set new } := by
  intro upstream hupstream
  by_cases hsame : upstream.id = new.id
  · have heq : upstream = old := Table.eq_of_key_eq hupstream hold (hsame.trans hid)
    subst heq
    exact ⟨new, (Table.mem_set ⟨upstream, hold, hsame⟩).mpr (.inl rfl), hid, hkey⟩
  · exact ⟨upstream, Table.mem_set_of_ne hupstream hsame, rfl, rfl⟩

theorem Edit.upstreamKeysKept (hedit : w.Edit stamp w') : w.UpstreamKeysKept w' := by
  cases hedit with
  | @newUpstream mk hmk =>
    intro upstream hupstream
    have hmem : upstream ∈ w.upstreams.insert mk hmk := Table.mem_insert.mpr (.inl hupstream)
    exact ⟨upstream, hmem, rfl, rfl⟩
  | setUpstream hold hid hkey => exact upstreamKeysKept_set hold hid hkey
  | archiveUpstream hupstream
  | restoreUpstream hupstream => exact upstreamKeysKept_set hupstream rfl rfl
  | source | newModel | setModel | newRoute | setRoute | archiveModel | archiveRoute
  | restoreModel | restoreRoute => exact UpstreamKeysKept.refl w

theorem Edits.upstreamKeysKept (hedits : w.Edits w') : w.UpstreamKeysKept w' := by
  induction hedits with
  | refl => exact UpstreamKeysKept.refl w
  | tail _ hedit ih => exact ih.trans hedit.upstreamKeysKept

theorem upstreamKeysKept_of_perform {op : Op} (h : perform u fernet w op = .ok w') :
    w.UpstreamKeysKept w' := by
  rcases perform_edits h with ⟨-, hedits⟩ | ⟨now, -, hedit⟩
  · exact hedits.upstreamKeysKept
  · exact hedit.upstreamKeysKept

end Catalog

/-! ### Runs of the management operations -/

section runs

variable {l l' : Ledger} {ops : List Op}

theorem written_of_run (hrun : run (Ledger.step u fernet) .start ops = some l) :
    l.catalog.Written := by
  let Checked (l : Ledger) : Prop := l.catalog.Written
  have hstep : ∀ l op l', Checked l → Ledger.step u fernet l op = some l' → Checked l' := by
    intro l op l' hwritten hstep
    rcases Ledger.step_cases hstep with rfl | ⟨catalog, hperform, rfl⟩
    · exact hwritten
    · exact perform_written hwritten hperform
  have hstart : Checked .start := written_empty
  have hend : Checked l := run_invariant hstep hstart hrun
  exact hend

/-- Later edits keep the upstream of every route, and its key. -/
theorem kept_of_run (hrun : run (Ledger.step u fernet) l ops = some l') :
    l.catalog.RoutesKept l'.catalog ∧ l.catalog.UpstreamKeysKept l'.catalog := by
  let Kept (l' : Ledger) : Prop :=
    l.catalog.RoutesKept l'.catalog ∧ l.catalog.UpstreamKeysKept l'.catalog
  have hstep : ∀ m op m', Kept m → Ledger.step u fernet m op = some m' → Kept m' := by
    rintro m op m' ⟨hroutes, hkeys⟩ hstep
    rcases Ledger.step_cases hstep with rfl | ⟨catalog, hperform, rfl⟩
    · exact ⟨hroutes, hkeys⟩
    · exact ⟨hroutes.trans (Catalog.routesKept_of_perform hperform),
        hkeys.trans (Catalog.upstreamKeysKept_of_perform hperform)⟩
  have hrefl : Kept l := ⟨.refl _, .refl _⟩
  have hend : Kept l' := run_invariant hstep hrefl hrun
  exact hend

end runs

/-! ### Models that are offered -/

/-- A model that is offered comes from a row of the join. -/
theorem exists_row_of_mem_databaseChatModels {models : List ChatModel} {model : ChatModel}
    (h : databaseChatModels w = .ok models) (hmodel : model ∈ models) :
    ∃ row route upstream, (row, route, upstream) ∈ w.joined ∧
      databaseModel row route upstream = .ok model := by
  have hrows : ∀ row ∈ (w.joined.filter JoinedRow.available).insertionSort
      (fun a b => a.precedes b = true), row ∈ w.joined :=
    fun row hrow => (List.mem_filter.mp ((List.mem_insertionSort _).mp hrow)).1
  rw [databaseChatModels] at h
  generalize (w.joined.filter JoinedRow.available).insertionSort
    (fun a b => a.precedes b = true) = rows at h hrows
  generalize ([] : List ℕ) = seen at h
  induction rows generalizing seen models with
  | nil =>
    cases h
    cases hmodel
  | cons row rows ih =>
    obtain ⟨row, route, upstream⟩ := row
    have hrest := fun row hrow => hrows row (List.mem_cons_of_mem _ hrow)
    rw [selectModels] at h
    split_ifs at h
    · exact ih hmodel hrest _ h
    · obtain ⟨entry, hentry, h⟩ := bind_eq_ok_iff.mp h
      obtain ⟨selected, hselected, h⟩ := bind_eq_ok_iff.mp h
      rw [← Except.ok.inj h] at hmodel
      rcases List.mem_cons.mp hmodel with rfl | hmodel
      · exact ⟨row, route, upstream, hrows _ List.mem_cons_self, hentry⟩
      · exact ih hmodel hrest _ hselected

/-- What the checks of `_database_model` and of the writers say of a model that is offered. -/
structure ChatModel.Checked (model : ChatModel) (route : ModelRoute) (upstream : ModelUpstream) :
    Prop where
  source : model.source = .database
  routeId : model.routeId = some route.id
  upstreamKey : model.upstreamKey = upstream.key
  positive : 0 < route.id
  key : model.key ≠ []
  upstreamKey_ne : model.upstreamKey ≠ []
  adapter : model.providerName ∈ adapters
  baseUrl : model.baseUrl ≠ []
  providerModel : model.providerModel ≠ []
  tokenProfile : model.tokenProfile ∈ tokenProfiles
  thinkingLevels : validateThinkingLevels model.thinkingLevels = .ok model.thinkingLevels
  reasoningOutputs : validateReasoningOutputs model.reasoningOutputs model.providerName =
    .ok model.reasoningOutputs
  images : model.supportsImageInput = model.imageTokenReserve.isSome
  reserve : ∀ reserve, model.imageTokenReserve = some reserve → 0 < reserve

theorem checked_of_mem_databaseChatModels {models : List ChatModel} {model : ChatModel}
    (hw : w.Written) (h : databaseChatModels w = .ok models) (hmodel : model ∈ models) :
    ∃ route ∈ w.routes, ∃ upstream ∈ w.upstreams, upstream.id = route.upstreamId ∧
      model.Checked route upstream := by
  obtain ⟨row, route, upstream, hjoined, hentry⟩ := exists_row_of_mem_databaseChatModels h hmodel
  obtain ⟨hroute, hupstream, hrow⟩ := Catalog.mem_joined.mp hjoined
  simp only [databaseModel, bind_eq_ok_iff, ite_error_eq_ok_iff, Except.ok.injEq, not_not] at hentry
  obtain ⟨levels, hlevels, outputs, houtputs, hprofile, adapter, hadapter, rfl⟩ := hentry
  obtain rfl := (validateThinkingLevels_eq_ok_iff.mp hlevels).1
  obtain rfl := (validateReasoningOutputs_eq_ok_iff.mp houtputs).1
  have hmem := Table.mem_of_get? hupstream
  have hwrow := hw.models row (Table.mem_of_get? hrow)
  have hwroute := hw.routes route hroute
  have hwupstream := hw.upstreams upstream hmem
  rw [providerAdapter, ite_error_eq_ok_iff, not_not] at hadapter
  exact ⟨route, hroute, upstream, hmem, Table.key_of_get? hupstream,
    { source := rfl
      routeId := rfl
      upstreamKey := rfl
      positive := hwroute.id
      key := hwrow.key
      upstreamKey_ne := hwupstream.key
      adapter := hadapter.1
      baseUrl := hwupstream.baseUrl
      providerModel := hwroute.upstreamModel
      tokenProfile := hprofile
      thinkingLevels := hlevels
      reasoningOutputs := houtputs
      images := hwrow.images
      reserve := hwrow.reserve }⟩

/-! ### Reading a snapshot back -/

/-- What a JSON column gives back: the object with the same fields, in any order. -/
def ReadBack (raw raw' : Json) : Prop :=
  ∃ fields fields', raw.obj? = some fields ∧ raw'.obj? = some fields' ∧
    ∀ key, Dict.get? fields' key = Dict.get? fields key

theorem textItems_map_str (texts : List String) :
    textItems (some (.arr (texts.map Json.str))) = some texts := by
  rw [textItems]
  induction texts with
  | nil => rfl
  | cons text texts ih =>
    rw [List.map_cons, List.mapM_cons, ih]
    rfl

/-- A text that is required and there. -/
theorem requiredString_eq_ok {raw : Dict} {field text : String}
    (h : raw.get? field = some (.str text)) (hne : text ≠ "") :
    requiredString raw field = .ok text := by
  rw [requiredString, h]
  exact if_neg hne

theorem ofList_ne_empty {text : List Char} (h : text ≠ []) : String.ofList text ≠ "" := by
  intro heq
  refine h ?_
  rw [← String.toList_ofList (l := text), heq]
  rfl

/-- What the parser makes of the snapshot of a model. -/
def ChatModel.parsedSnapshot (model : ChatModel) (routeId : ℕ) : Snapshot where
  version := 2
  catalogModel := model.key
  upstream := model.upstreamKey
  adapter := model.providerName
  baseUrl := model.baseUrl
  providerModel := model.providerModel
  tokenProfile := model.tokenProfile
  routeId := routeId
  thinkingLevels := model.thinkingLevels
  reasoningOutputs := model.reasoningOutputs
  supportsImageInput := model.supportsImageInput
  imageTokenReserve := model.imageTokenReserve

/-- **Round trip**: the snapshot of a checked model is read back as it was written. -/
theorem parseSnapshot_snapshot {model : ChatModel} {route : ModelRoute} {upstream : ModelUpstream}
    (h : model.Checked route upstream) :
    ∃ raw, model.snapshot = .ok (some raw) ∧ ∀ raw', ReadBack raw raw' →
      ∃ fields, raw'.obj? = some fields ∧
        parseSnapshot fields = .ok (model.parsedSnapshot route.id) := by
  rw [ChatModel.snapshot, h.source, h.routeId]
  refine ⟨_, rfl, ?_⟩
  rintro raw' ⟨fields, fields', hfields, hfields', hsame⟩
  cases hfields
  refine ⟨fields', hfields', ?_⟩
  -- every field that is read back stands in the record under its own key
  have hadapter : model.providerName ≠ "" := by
    intro hempty
    have hmem := h.adapter
    rw [hempty] at hmem
    exact absurd hmem (by decide)
  have hprofile : model.tokenProfile ≠ "" := by
    intro hempty
    have hmem := h.tokenProfile
    rw [hempty] at hmem
    exact absurd hmem (by decide)
  have hversion : snapshotVersion fields' = .ok 2 := by
    rw [snapshotVersion, hsame]
    rfl
  have hkey := requiredString_eq_ok (hsame "catalog_model") (ofList_ne_empty h.key)
  have hupstream := requiredString_eq_ok (hsame "upstream") (ofList_ne_empty h.upstreamKey_ne)
  have hprovider := requiredString_eq_ok (hsame "adapter") hadapter
  have hbaseUrl := requiredString_eq_ok (hsame "base_url") (ofList_ne_empty h.baseUrl)
  have hmodel := requiredString_eq_ok (hsame "provider_model") (ofList_ne_empty h.providerModel)
  have htoken := requiredString_eq_ok (hsame "token_profile") hprofile
  have hroute : snapshotRouteId fields' = .ok route.id := by
    rw [snapshotRouteId, hsame]
    have hpositive := h.positive
    exact if_neg (by omega)
  have hlevels : validatedThinkingLevels (Dict.get? fields' "thinking_levels") =
      .ok model.thinkingLevels := by
    have hget : Dict.get? fields' "thinking_levels" =
        some (.arr (model.thinkingLevels.map Json.str)) := hsame _
    rw [validatedThinkingLevels, hget, textItems_map_str]
    exact h.thinkingLevels
  have houtputs : snapshotReasoningOutputs fields' 2 model.providerName =
      .ok model.reasoningOutputs := by
    have hget : Dict.get? fields' "reasoning_outputs" =
        some (.arr (model.reasoningOutputs.map Json.str)) := hsame _
    rw [snapshotReasoningOutputs, if_neg (by decide), validatedReasoningOutputs, hget,
      textItems_map_str]
    exact h.reasoningOutputs
  have hreserve : snapshotReserve fields' = .ok model.imageTokenReserve := by
    have hget : Dict.get? fields' "image_token_reserve" =
        some ((model.imageTokenReserve.map Json.int).getD .null) := hsame _
    rw [snapshotReserve, hget]
    cases htokens : model.imageTokenReserve with
    | none => rfl
    | some tokens => exact if_neg (Int.not_le.mpr (h.reserve tokens htokens))
  have himages : snapshotImages fields' =
      .ok (model.supportsImageInput, model.imageTokenReserve) := by
    have hget : Dict.get? fields' "supports_image_input" =
        some (.bool model.supportsImageInput) := hsame _
    rw [snapshotImages, hget]
    dsimp only
    rw [hreserve, ok_bind, if_neg (not_not.mpr h.images)]
  rw [parseSnapshot, hversion, ok_bind, hkey, ok_bind, hupstream, ok_bind, hprovider, ok_bind,
    hbaseUrl, ok_bind, hmodel, ok_bind, htoken, ok_bind, hroute, ok_bind, hlevels, ok_bind,
    houtputs, ok_bind, himages, ok_bind, if_neg (not_not.mpr h.tokenProfile), providerAdapter,
    if_neg (not_not.mpr h.adapter), ok_bind]
  simp only [String.toList_ofList]
  rfl

/-! ### Executing a run -/

/-- The connection of a model, with a key: what `provider_for_chat_model` builds a provider from. -/
def ChatModel.connection (model : ChatModel) (settings : Settings) (apiKey : List Char) :
    ProviderConnection where
  adapter := model.providerName
  apiKey := apiKey
  baseUrl := model.baseUrl
  tokenProfile := model.tokenProfile
  defaultThinkingEnabled := settings.deepseekThinkingEnabled
  defaultReasoningEffort := settings.deepseekReasoningEffort
  reasoningOutputs := model.reasoningOutputs

theorem exists_buildProvider {c : ProviderConnection} (h : c.adapter ∈ adapters) :
    ∃ provider, buildProvider c = .ok provider := by
  simp only [adapters, List.mem_cons, List.not_mem_nil, or_false] at h
  rw [buildProvider]
  rcases h with h | h | h | h <;> rw [h] <;> exact ⟨_, rfl⟩

/-- The provider that admission counts tokens with is built from the connection of the model. -/
theorem connection_of_providerForChatModel {model : ChatModel} {settings : Settings}
    {provider : Provider} (hsource : model.source = .database)
    (h : providerForChatModel fernet model settings = .ok provider) :
    ∃ apiKey, buildProvider (model.connection settings apiKey) = .ok provider := by
  rw [providerForChatModel, hsource] at h
  cases hciphertext : model.apiKeyCiphertext with
  | none =>
    rw [hciphertext] at h
    cases h
  | some =>
    simp only [hciphertext, bind_eq_ok_iff, providerAdapter, ite_error_eq_ok_iff,
      Except.ok.injEq] at h
    obtain ⟨cipher, -, apiKey, -, adapter, ⟨-, rfl⟩, hbuild⟩ := h
    exact ⟨apiKey, hbuild⟩

/-- What a run is resolved to: the connection of its model with the key of the upstream, and the
capabilities of the model. -/
structure ResolvesTo (model : ChatModel) (settings : Settings) (apiKey : List Char)
    (runtime : RunModelRuntime) : Prop where
  provider : buildProvider (model.connection settings apiKey) = .ok runtime.provider
  supportsReasoning : runtime.supportsReasoning = decide (model.thinkingLevels ≠ [])
  reasoningOutputs : runtime.reasoningOutputs = model.reasoningOutputs
  supportsImageInput : runtime.supportsImageInput = model.supportsImageInput
  imageTokenReserve : runtime.imageTokenReserve = model.imageTokenReserve.getD 0
  catalogModel : runtime.catalogModel = model.key

/-- The runtime that a snapshot is resolved to, when the upstream of its route is found. -/
theorem resolveSnapshotRuntime_eq_ok {model : ChatModel} {route : ModelRoute}
    {upstream stored : ModelUpstream} {raw : Json} {fields : Dict} {settings : Settings}
    {apiKey : List Char} {providerOptions : Option Dict} (h : model.Checked route upstream)
    (hfields : raw.obj? = some fields)
    (hparsed : parseSnapshot fields = .ok (model.parsedSnapshot route.id))
    (hstored : w.upstreamOfRoute route.id = some stored) (hkey : stored.key = upstream.key)
    (hdecrypt : decryptWith fernet settings stored.apiKeyCiphertext = .ok apiKey) :
    ∃ runtime, resolveRunModelRuntime u fernet w
        ⟨model.providerName, model.providerModel, some raw, providerOptions⟩ settings =
          .ok runtime ∧ ResolvesTo model settings apiKey runtime := by
  obtain ⟨provider, hprovider⟩ := @exists_buildProvider
    (model.connection settings apiKey) h.adapter
  obtain ⟨cipher, hcipher, hdecrypt⟩ := bind_eq_ok_iff.mp hdecrypt
  have hmatch : ¬((model.parsedSnapshot route.id).adapter ≠ model.providerName ∨
      (model.parsedSnapshot route.id).providerModel ≠ model.providerModel) := by
    rintro (hne | hne) <;> exact hne rfl
  have hupstream : ¬stored.key ≠ (model.parsedSnapshot route.id).upstream :=
    not_not.mpr (hkey.trans h.upstreamKey.symm)
  have hadapter : providerAdapter model.providerName = .ok model.providerName :=
    if_neg (not_not.mpr h.adapter)
  have hresolve : resolveSnapshotRuntime fernet w
      ⟨model.providerName, model.providerModel, some raw, providerOptions⟩ raw settings =
        .ok ⟨provider, decide (model.thinkingLevels ≠ []), model.reasoningOutputs,
          model.supportsImageInput, model.imageTokenReserve.getD 0, model.key⟩ := by
    have hroute : w.upstreamOfRoute (model.parsedSnapshot route.id).routeId = some stored := hstored
    have hparsedAdapter : providerAdapter (model.parsedSnapshot route.id).adapter =
        .ok model.providerName := hadapter
    rw [resolveSnapshotRuntime, hfields]
    dsimp only
    rw [hparsed, ok_bind, if_neg hmatch, hroute]
    dsimp only
    rw [if_neg hupstream, hcipher, ok_bind, hparsedAdapter, ok_bind, hdecrypt, ok_bind]
    change (buildProvider (model.connection settings apiKey) >>= _) = _
    rw [hprovider]
    rfl
  exact ⟨_, hresolve, hprovider, rfl, rfl, rfl, rfl, rfl⟩

/-- **A run stays pinned to its route.** A model that the tables offer, after any management
operations, has a snapshot that is resolved, after any further ones, to the connection and the
capabilities the model was offered with; the key is that of the upstream by then, and the provider
is built from the same connection as the one that counted the tokens at admission. -/
theorem snapshot_resolves (u : Url.UnicodeData) (fernet : List Char → Option Fernet)
    {ops later : List Op} {l l' : Ledger} {models : List ChatModel} {model : ChatModel}
    (hrun : run (Ledger.step u fernet) .start ops = some l)
    (hmodels : databaseChatModels l.catalog = .ok models) (hmodel : model ∈ models)
    (hlater : run (Ledger.step u fernet) l later = some l') (settings : Settings)
    {apiKey : List Char} (hkey : ∀ routeId upstream, model.routeId = some routeId →
      l'.catalog.upstreamOfRoute routeId = some upstream →
        decryptWith fernet settings upstream.apiKeyCiphertext = .ok apiKey) :
    (∃ raw, model.snapshot = .ok (some raw) ∧ ∀ raw', ReadBack raw raw' → ∀ providerOptions,
      ∃ runtime, resolveRunModelRuntime u fernet l'.catalog
        ⟨model.providerName, model.providerModel, some raw', providerOptions⟩ settings =
          .ok runtime ∧ ResolvesTo model settings apiKey runtime) ∧
    ∀ provider, providerForChatModel fernet model settings = .ok provider →
      ∃ admitted, buildProvider (model.connection settings admitted) = .ok provider := by
  obtain ⟨route, hroute, upstream, hupstream, hid, hchecked⟩ :=
    checked_of_mem_databaseChatModels (written_of_run hrun) hmodels hmodel
  refine ⟨?_, fun provider hprovider =>
    connection_of_providerForChatModel hchecked.source hprovider⟩
  obtain ⟨raw, hraw, hread⟩ := parseSnapshot_snapshot hchecked
  refine ⟨raw, hraw, fun raw' hback providerOptions => ?_⟩
  obtain ⟨fields, hfields, hparsed⟩ := hread raw' hback
  -- the route and its upstream are still there, the upstream under its key
  obtain ⟨hroutes, hkeys⟩ := kept_of_run hlater
  obtain ⟨route', hroute', hrouteId, hrouteUpstream⟩ := hroutes route hroute
  obtain ⟨upstream', hupstream', hupstreamId, hupstreamKey⟩ := hkeys upstream hupstream
  have hstored : l'.catalog.upstreamOfRoute route.id = some upstream' := by
    have hget : l'.catalog.routes.get? route.id = some route' :=
      Table.get?_eq_some_iff.mpr ⟨hroute', hrouteId⟩
    rw [Catalog.upstreamOfRoute, hget, Option.bind_some]
    exact Table.get?_eq_some_iff.mpr ⟨hupstream', by rw [hupstreamId, hid, hrouteUpstream]⟩
  exact resolveSnapshotRuntime_eq_ok hchecked hfields hparsed hstored hupstreamKey
    (hkey route.id upstream' hchecked.routeId hstored)

/-- The imported model is offered and then archived; a run of it is resolved. -/
theorem snapshot_resolves_archived :
    ∃ l l' models model, run (Ledger.step .ascii plainFernet) .start
        [.importEnvironmentCatalog deepseekSettings 0 1] = some l ∧
      run (Ledger.step .ascii plainFernet) l [.archiveChatModel "flash".toList 11] = some l' ∧
      databaseChatModels l.catalog = .ok models ∧ model ∈ models ∧
      ∃ raw, model.snapshot = .ok (some raw) ∧ ∀ raw', ReadBack raw raw' → ∀ providerOptions,
        ∃ runtime, resolveRunModelRuntime .ascii plainFernet l'.catalog
          ⟨model.providerName, model.providerModel, some raw', providerOptions⟩ deepseekSettings =
            .ok runtime ∧ ResolvesTo model deepseekSettings "key".toList runtime := by
  obtain ⟨l', hall, hkeys⟩ : ∃ l', run (Ledger.step .ascii plainFernet) .start
      ([.importEnvironmentCatalog deepseekSettings 0 1] ++
        [.archiveChatModel "flash".toList 11]) = some l' ∧
      ∀ upstream ∈ l'.catalog.upstreams, decryptWith plainFernet deepseekSettings
        upstream.apiKeyCiphertext = .ok "key".toList := exists_run (by decide +kernel)
  obtain ⟨l, hrun, hlater⟩ := run_append.mp hall
  obtain ⟨offered, hoffered, hlength⟩ : ∃ l, run (Ledger.step .ascii plainFernet) .start
      [.importEnvironmentCatalog deepseekSettings 0 1] = some l ∧
      ((databaseChatModels l.catalog).toOption.any fun models => models.length = 1) = true :=
    exists_run (by decide +kernel)
  obtain rfl := Option.eq_some_unique hoffered hrun
  obtain ⟨models, hmodels, hone⟩ := (Option.any_eq_true ..).mp hlength
  rw [Except.toOption_eq_some_iff] at hmodels
  obtain ⟨model, rfl⟩ := List.length_eq_one_iff.mp (of_decide_eq_true hone)
  refine ⟨offered, l', [model], model, hrun, hlater, hmodels, List.mem_singleton_self _,
    (snapshot_resolves .ascii plainFernet hrun hmodels (List.mem_singleton_self _) hlater
      deepseekSettings fun routeId upstream _ hupstream => hkeys upstream ?_).1⟩
  obtain ⟨route, -, hget⟩ := Option.bind_eq_some_iff.mp hupstream
  exact Table.mem_of_get? hget

end IChat.ModelCatalog
