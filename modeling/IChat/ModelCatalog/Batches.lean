import IChat.ModelCatalog.CatalogInvariant

/-!
# Runs of the catalog

The catalog under any sequence of operations, each in a transaction that is rolled back when the
operation raises. Beside the tables a run keeps the times that were written by archiving
operations, to say that they are distinct.

While a model stays archived its routes do not change (`routes_of_archived`), so a restore finds
the batch that was archived with it. `catalog_safety` collects what holds in every run.
-/

namespace IChat.ModelCatalog

open StepSystem

variable {u : Url.UnicodeData} {fernet : List Char → Option Fernet} {w w' : Catalog}
  {stamp : Option ℕ} {id time : ℕ}

/-- The tables, and the times that archiving operations have written. -/
structure Ledger where
  catalog : Catalog
  stamps : List ℕ

/-- No operation has run. -/
def Ledger.start : Ledger := ⟨.empty, []⟩

/-- One operation: what it writes is committed, or nothing is. -/
def Ledger.step (u : Url.UnicodeData) (fernet : List Char → Option Fernet) (l : Ledger) (op : Op) :
    Option Ledger :=
  match perform u fernet l.catalog op with
  | .error _ => some l
  | .ok catalog => some ⟨catalog, op.stamp.toList ++ l.stamps⟩

/-! ### The routes of an archived model -/

namespace Catalog

/-- The model with this identity is archived, at this time. -/
def ModelArchivedAt (w : Catalog) (id time : ℕ) : Prop :=
  ∃ model ∈ w.models, model.id = id ∧ model.archivedAt = some time

theorem ModelArchivedAt.of_mem (h : w.ModelArchivedAt id time) {model : ChatModelRow}
    (hmodel : model ∈ w.models) (hid : model.id = id) : model.archivedAt = some time := by
  obtain ⟨archived, harchived, hid', htime⟩ := h
  have hsame : model = archived := Table.eq_of_key_eq hmodel harchived (hid.trans hid'.symm)
  rw [hsame, htime]

/-- An edit that archives nothing leaves no model archived that was not archived then. -/
theorem Edit.modelArchivedAt (hedit : w.Edit none w') (h : w'.ModelArchivedAt id time) :
    w.ModelArchivedAt id time := by
  obtain ⟨row, hrow, rfl, htime⟩ := h
  cases hedit with
  | @newModel mk hmk hfree hnew hvalid =>
    have hrow : row ∈ w.models.insert mk hmk := hrow
    rcases Table.mem_insert.mp hrow with hrow | rfl
    · exact ⟨row, hrow, rfl, htime⟩
    · rw [hnew] at htime
      cases htime
  | setModel hold hid hkey harchived hvalid =>
    rcases Table.of_mem_set hrow with rfl | ⟨hrow, -⟩
    · exact ⟨_, hold, hid.symm, harchived.symm.trans htime⟩
    · exact ⟨row, hrow, rfl, htime⟩
  | restoreModel hmodel harchived hfree hallowed =>
    rcases (mem_models_modelRestored hmodel).mp hrow with rfl | ⟨hrow, -⟩
    · cases htime
    · exact ⟨row, hrow, rfl, htime⟩
  | source | newUpstream | setUpstream | newRoute | setRoute | restoreUpstream | restoreRoute =>
    exact ⟨row, hrow, rfl, htime⟩

/-- **The routes of a model do not change while it stays archived.** -/
theorem Edit.routes_of_archived (hedit : w.Edit stamp w') (hinv : w.Inv)
    (hbefore : w.ModelArchivedAt id time) (hafter : w'.ModelArchivedAt id time)
    {route : ModelRoute} (hroute : route.chatModelId = id) :
    route ∈ w'.routes ↔ route ∈ w.routes := by
  -- a route that is archived or written by an edit belongs to a model that is not archived
  have hother : ∀ model ∈ w.models, model.archivedAt = none → model.id ≠ id := by
    intro model hmodel hactive hid
    rw [hbefore.of_mem hmodel hid] at hactive
    cases hactive
  have hactive : ∀ row ∈ w.routes, row.archivedAt = none → row.chatModelId ≠ id := by
    intro row hrow hr
    obtain ⟨parent, hparent, hparentId, hp⟩ := hinv.active_model row hrow hr
    rw [← hparentId]
    exact hother parent hparent hp
  have hset : ∀ old ∈ w.routes, ∀ new : ModelRoute, new.id = old.id → old.chatModelId ≠ id →
      new.chatModelId = old.chatModelId → (route ∈ w.routes.set new ↔ route ∈ w.routes) := by
    intro old hold new hid hne hsame
    rw [Table.mem_set ⟨old, hold, hid.symm⟩]
    constructor
    · rintro (rfl | ⟨hmem, -⟩)
      · exact absurd (hsame.symm.trans hroute) hne
      · exact hmem
    · intro hmem
      refine .inr ⟨hmem, fun heq => hne ?_⟩
      have hold' : route = old := Table.eq_of_key_eq hmem hold (heq.trans hid)
      rw [← hold', hroute]
  cases hedit with
  | newRoute hmodel hmodelActive hupstream hactive' hmodelId hupstreamId hnew hfree hallowed =>
    rw [Table.mem_insert]
    refine or_iff_left fun hnewRoute => ?_
    rw [hnewRoute, hmodelId] at hroute
    exact hother _ hmodel hmodelActive hroute
  | setRoute hold hid htarget hold' harchived hallowed =>
    exact hset _ hold _ hid (hactive _ hold hold') (congrArg Prod.fst htarget)
  | archiveModel hmodel hmodelActive now =>
    rename_i model
    have hne := hother model hmodel hmodelActive
    have hsame : ∀ row : ModelRoute, row.chatModelId = id →
      row.archivedWith model.id now = row := by
      intro row hrow
      rw [ModelRoute.archivedWith, if_neg fun hin => hne (hin.1.symm.trans hrow)]
    rw [mem_routes_modelArchived]
    constructor
    · rintro ⟨old, hold, rfl⟩
      rw [hsame old hroute]
      exact hold
    · intro hmem
      exact ⟨route, hmem, hsame route hroute⟩
  | archiveRoute hmem hr now => exact hset _ hmem _ rfl (hactive _ hmem hr) rfl
  | restoreModel hmodel harchived hfree hallowed =>
    rename_i model archivedAt
    have hne : model.id ≠ id := by
      intro hid
      have hrestored := hafter.of_mem ((mem_models_modelRestored hmodel).mpr (.inl rfl)) hid
      cases hrestored
    have hsame : ∀ row ∈ w.routes, row.chatModelId = id →
        row.restoredWith (w.batch model.id archivedAt) = row := by
      intro row hrow hin
      have hnot : row.id ∉ (w.batch model.id archivedAt).map fun row => row.1.id := by
        intro hmem
        obtain ⟨⟨member, upstream⟩, hbatch, hid⟩ := List.mem_map.mp hmem
        obtain ⟨hmember, -, hmodelId, -⟩ := mem_batch.mp hbatch
        have heq : member = row := Table.eq_of_key_eq hmember hrow hid
        exact hne (hmodelId.symm.trans (heq ▸ hin))
      rw [ModelRoute.restoredWith, if_neg hnot]
    rw [mem_routes_modelRestored]
    constructor
    · rintro ⟨old, hold, rfl⟩
      rw [hsame old hold hroute]
      exact hold
    · intro hmem
      exact ⟨route, hmem, hsame route hmem hroute⟩
  | restoreRoute hmem harchived hmodel hmodelId hmodelActive hupstream hupstreamId hactive' hfree
      hallowed =>
    exact hset _ hmem _ rfl (hmodelId ▸ hother _ hmodel hmodelActive) rfl
  | source | newModel | setModel | newUpstream | setUpstream | archiveUpstream
  | restoreUpstream => exact Iff.rfl

theorem Edits.modelArchivedAt (hedits : w.Edits w') (h : w'.ModelArchivedAt id time) :
    w.ModelArchivedAt id time := by
  induction hedits with
  | refl => exact h
  | tail _ hedit ih => exact ih (hedit.modelArchivedAt h)

theorem Edits.routes_of_archived (hedits : w.Edits w') (hinv : w.Inv)
    (hafter : w'.ModelArchivedAt id time) {route : ModelRoute} (hroute : route.chatModelId = id) :
    route ∈ w'.routes ↔ route ∈ w.routes := by
  induction hedits with
  | refl => exact Iff.rfl
  | tail hedits hedit ih =>
    have hmiddle := hedit.modelArchivedAt hafter
    rw [hedit.routes_of_archived (Edits.inv hedits hinv) hmiddle hafter hroute]
    exact ih hmiddle

/-- A time that a route is archived at after an edit is that of the edit, or an older one. -/
theorem Edit.archivedAt_of_mem (hedit : w.Edit stamp w') {route : ModelRoute}
    (hroute : route ∈ w'.routes) (htime : route.archivedAt = some time) :
    stamp = some time ∨ ∃ old ∈ w.routes, old.archivedAt = some time := by
  cases hedit with
  | @newRoute mk hmk model upstream hmodel hmodelActive hupstream hactive' hmodelId hupstreamId hnew
      hfree hallowed =>
    have hroute : route ∈ w.routes.insert mk hmk := hroute
    rcases Table.mem_insert.mp hroute with hroute | rfl
    · exact .inr ⟨route, hroute, htime⟩
    · rw [hnew] at htime
      cases htime
  | setRoute hold hid htarget hold' harchived hallowed =>
    rcases Table.of_mem_set hroute with rfl | ⟨hroute, -⟩
    · rw [harchived] at htime
      cases htime
    · exact .inr ⟨route, hroute, htime⟩
  | archiveModel hmodel hmodelActive now =>
    obtain ⟨old, hold, rfl⟩ := mem_routes_modelArchived.mp hroute
    rw [archivedWith_archivedAt] at htime
    split at htime
    · exact .inl htime
    · exact .inr ⟨old, hold, htime⟩
  | archiveRoute hmem hr now =>
    rcases Table.of_mem_set hroute with rfl | ⟨hroute, -⟩
    · exact .inl htime
    · exact .inr ⟨route, hroute, htime⟩
  | @restoreModel model archivedAt hmodel harchived hfree hallowed =>
    obtain ⟨old, hold, rfl⟩ := mem_routes_modelRestored.mp hroute
    have hsome : (old.restoredWith (w.batch model.id archivedAt)).archivedAt ≠ none := by
      rw [htime]
      exact Option.some_ne_none time
    exact .inr ⟨old, hold, (restoredWith_archivedAt_of_ne hsome).symm.trans htime⟩
  | restoreRoute hmem harchived hmodel hmodelId hmodelActive hupstream hupstreamId hactive' hfree
      hallowed =>
    rcases Table.of_mem_set hroute with rfl | ⟨hroute, -⟩
    · cases htime
    · exact .inr ⟨route, hroute, htime⟩
  | source | newModel | setModel | newUpstream | setUpstream | archiveUpstream
  | restoreUpstream => exact .inr ⟨route, hroute, htime⟩

theorem Edits.archivedAt_of_mem (hedits : w.Edits w') {route : ModelRoute}
    (hroute : route ∈ w'.routes) (htime : route.archivedAt = some time) :
    ∃ old ∈ w.routes, old.archivedAt = some time := by
  induction hedits generalizing route with
  | refl => exact ⟨route, hroute, htime⟩
  | tail _ hedit ih =>
    rcases hedit.archivedAt_of_mem hroute htime with hnone | ⟨old, hold, htime⟩
    · cases hnone
    · exact ih hold htime

/-! ### Reading the catalog -/

theorem mem_joined {model : ChatModelRow} {route : ModelRoute} {upstream : ModelUpstream} :
    (model, route, upstream) ∈ w.joined ↔
      route ∈ w.routes ∧ w.upstreams.get? route.upstreamId = some upstream ∧
        w.models.get? route.chatModelId = some model := by
  simp only [joined, List.mem_filterMap, Option.map_eq_some_iff, Prod.mk.injEq, Prod.exists,
    mem_routesWithUpstream]
  constructor
  · rintro ⟨route', upstream', ⟨hroute, hget⟩, model', hmodel, rfl, rfl, rfl⟩
    exact ⟨hroute, hget, hmodel⟩
  · rintro ⟨hroute, hget, hmodel⟩
    exact ⟨route, upstream, ⟨hroute, hget⟩, model, hmodel, rfl, rfl, rfl⟩

/-- The rows that are selected from pass the checks of `_database_model`. -/
theorem Inv.databaseModel (h : w.Inv) {model : ChatModelRow} {route : ModelRoute}
    {upstream : ModelUpstream} (hrow : (model, route, upstream) ∈ w.joined)
    (hactive : route.archivedAt = none) :
    ∃ entry, ModelCatalog.databaseModel model route upstream = .ok entry := by
  obtain ⟨hroute, hupstream, hmodel⟩ := mem_joined.mp hrow
  obtain ⟨parent, hparent, hparentId, -, hallowed⟩ := h.active_upstream route hroute hactive
  have hsame : parent = upstream :=
    Table.eq_of_key_eq hparent (Table.mem_of_get? hupstream)
      (hparentId.trans (Table.key_of_get? hupstream).symm)
  subst hsame
  obtain ⟨hlevels, hprofile⟩ := h.model_valid model (Table.mem_of_get? hmodel)
  have hlevels := validateThinkingLevels_eq_ok_iff.mpr ⟨rfl, hlevels⟩
  have houtputs := validateReasoningOutputs_eq_ok_iff.mpr ⟨rfl, hallowed⟩
  have hadapter : providerAdapter parent.adapter = .ok parent.adapter :=
    if_neg (not_not.mpr (h.upstream_valid parent hparent))
  simp [ModelCatalog.databaseModel, bind, Except.bind, hlevels, houtputs, hprofile, hadapter]

theorem selectModels_ok {rows : List JoinedRow}
    (h : ∀ row ∈ rows, ∃ entry, ModelCatalog.databaseModel row.1 row.2.1 row.2.2 = .ok entry)
    (seen : List ℕ) : ∃ entries, selectModels seen rows = .ok entries := by
  induction rows generalizing seen with
  | nil => exact ⟨[], rfl⟩
  | cons row rows ih =>
    obtain ⟨model, route, upstream⟩ := row
    have hrest := ih fun row hrow => h row (List.mem_cons_of_mem _ hrow)
    by_cases hseen : model.id ∈ seen
    · obtain ⟨entries, hentries⟩ := hrest seen
      exact ⟨entries, by rw [selectModels, if_pos hseen, hentries]⟩
    · obtain ⟨entry, hentry⟩ := h (model, route, upstream) List.mem_cons_self
      obtain ⟨entries, hentries⟩ := hrest (model.id :: seen)
      refine ⟨entry :: entries, ?_⟩
      rw [selectModels, if_neg hseen, hentry]
      simp [bind, Except.bind, hentries]

/-- The models of the tables can be read. -/
theorem Inv.databaseChatModels_ok (h : w.Inv) : ∃ models, databaseChatModels w = .ok models := by
  refine selectModels_ok (fun row hrow => ?_) []
  obtain ⟨model, route, upstream⟩ := row
  obtain ⟨hjoined, havailable⟩ := List.mem_filter.mp ((List.mem_insertionSort _).mp hrow)
  have hactive : route.archivedAt = none := by
    simp only [JoinedRow.available, decide_eq_true_eq] at havailable
    exact havailable.2.2.2.2.1
  exact h.databaseModel hjoined hactive

end Catalog

/-! ### Runs -/

namespace Ledger

variable {l l' : Ledger} {op : Op} {ops : List Op}

/-- The invariant of a run: that of the tables, and every time in them was written. -/
structure Inv (l : Ledger) : Prop where
  catalog : l.catalog.Inv
  stamps : ∀ route ∈ l.catalog.routes, ∀ time, route.archivedAt = some time → time ∈ l.stamps

theorem step_cases (h : Ledger.step u fernet l op = some l') :
    l' = l ∨ ∃ catalog, perform u fernet l.catalog op = .ok catalog ∧
      l' = ⟨catalog, op.stamp.toList ++ l.stamps⟩ := by
  unfold Ledger.step at h
  cases hperform : perform u fernet l.catalog op with
  | error e =>
    rw [hperform] at h
    cases h
    exact .inl rfl
  | ok catalog =>
    rw [hperform] at h
    cases h
    exact .inr ⟨catalog, rfl, rfl⟩

/-- A time that was not written before is new to the routes. -/
theorem Inv.fresh (h : l.Inv) (htime : time ∉ l.stamps) : l.catalog.Fresh time :=
  fun route hroute heq => htime (h.stamps route hroute time heq)

theorem step_inv (hstep : Ledger.step u fernet l op = some l') (hinv : l.stamps.Nodup → l.Inv)
    (hnodup : l'.stamps.Nodup) : l'.Inv := by
  rcases step_cases hstep with rfl | ⟨catalog, hperform, rfl⟩
  · exact hinv hnodup
  have hold : l.Inv := hinv (List.nodup_append.mp hnodup).2.1
  rcases perform_edits hperform with ⟨hstamp, hedits⟩ | ⟨now, hstamp, hedit⟩
  · refine ⟨hedits.inv hold.catalog, fun route hroute time htime => ?_⟩
    obtain ⟨old, hmem, hat⟩ := hedits.archivedAt_of_mem hroute htime
    rw [hstamp]
    exact hold.stamps old hmem time hat
  · rw [hstamp] at hnodup ⊢
    have hnew : now ∉ l.stamps := (List.nodup_cons.mp hnodup).1
    refine ⟨hedit.inv (fun time htime => ?_) hold.catalog, fun route hroute time htime => ?_⟩
    · cases htime
      exact hold.fresh hnew
    · rcases hedit.archivedAt_of_mem hroute htime with hsame | ⟨old, hmem, hat⟩
      · cases hsame
        exact List.mem_cons_self
      · exact List.mem_cons_of_mem _ (hold.stamps old hmem time hat)

/-- The invariant holds at the end of a run whose archiving times are distinct. -/
theorem run_inv (hrun : run (Ledger.step u fernet) .start ops = some l)
    (hnodup : l.stamps.Nodup) : l.Inv := by
  have hstart : Ledger.start.stamps.Nodup → Ledger.start.Inv := fun _ =>
    ⟨Catalog.Inv.empty, fun route hroute => absurd hroute List.not_mem_nil⟩
  have hstep : ∀ (l : Ledger) op l', (l.stamps.Nodup → l.Inv) →
      Ledger.step u fernet l op = some l' → l'.stamps.Nodup → l'.Inv :=
    fun l op l' hinv hstep => step_inv hstep hinv
  exact run_invariant hstep hstart hrun hnodup

/-- The times that are written stay written. -/
theorem stamps_suffix {start : Ledger} (hrun : run (Ledger.step u fernet) start ops = some l) :
    start.stamps <:+ l.stamps := by
  let Kept (m : Ledger) : Prop := start.stamps <:+ m.stamps
  have hstep : ∀ m op m', Kept m → Ledger.step u fernet m op = some m' → Kept m' := by
    intro m op m' hm hstep
    rcases step_cases hstep with rfl | ⟨catalog, -, rfl⟩
    · exact hm
    · exact List.IsSuffix.trans hm (List.suffix_append _ _)
  have hstart : Kept start := List.suffix_rfl
  have hend := run_invariant hstep hstart hrun
  exact hend

/-- A step after which a model is archived at a time, and before which it was not, archives the
model and its routes. -/
theorem step_archives (hstep : Ledger.step u fernet l op = some l')
    (hbefore : ¬l.catalog.ModelArchivedAt id time) (hafter : l'.catalog.ModelArchivedAt id time) :
    ∃ key model, op = .archiveChatModel key time ∧ l.catalog.chatModelByKey key = .ok model ∧
      model.id = id ∧ l' = ⟨l.catalog.modelArchived model time, time :: l.stamps⟩ := by
  rcases step_cases hstep with rfl | ⟨catalog, hperform, rfl⟩
  · exact absurd hafter hbefore
  rcases perform_edits hperform with ⟨-, hedits⟩ | ⟨now, hstamp, -⟩
  · exact absurd (hedits.modelArchivedAt hafter) hbefore
  · cases op with
    | archiveChatModel key now' =>
      cases hstamp
      obtain ⟨row, hrow⟩ := exists_row hperform
      obtain ⟨model, hmodel, rfl, rfl⟩ := archiveChatModel_eq_ok_iff.mp hrow
      obtain ⟨archived, harchived, hid, htime⟩ := hafter
      have hmem := (Catalog.of_chatModelByKey hmodel).1
      rcases (Catalog.mem_models_modelArchived hmem).mp harchived with rfl | ⟨hold, -⟩
      · cases htime
        exact ⟨key, model, rfl, hmodel, hid, rfl⟩
      · exact absurd ⟨archived, hold, hid, htime⟩ hbefore
    | archiveModelUpstream key now' =>
      obtain ⟨row, hrow⟩ := exists_row hperform
      have hmodels := models_of_archiveModelUpstream hrow
      unfold Catalog.ModelArchivedAt at hafter
      rw [hmodels] at hafter
      exact absurd hafter hbefore
    | archiveModelRoute modelKey upstreamKey upstreamModel now' =>
      obtain ⟨row, hrow⟩ := exists_row hperform
      have hmodels := models_of_archiveModelRoute hrow
      unfold Catalog.ModelArchivedAt at hafter
      rw [hmodels] at hafter
      exact absurd hafter hbefore
    | upsertChatModel | upsertModelUpstream | upsertModelRoute | setChatModelEnabled
    | setModelUpstreamEnabled | setModelRouteEnabled | setDatabaseCatalogEnabled
    | restoreArchived | importEnvironmentCatalog => cases hstamp

/-- While a model stays archived at a time, a step leaves its routes alone. -/
theorem routes_of_step (hstep : Ledger.step u fernet l op = some l') (hinv : l.catalog.Inv)
    (hbefore : l.catalog.ModelArchivedAt id time) (hafter : l'.catalog.ModelArchivedAt id time)
    {route : ModelRoute} (hroute : route.chatModelId = id) :
    route ∈ l'.catalog.routes ↔ route ∈ l.catalog.routes := by
  rcases step_cases hstep with rfl | ⟨catalog, hperform, rfl⟩
  · exact Iff.rfl
  rcases perform_edits hperform with ⟨-, hedits⟩ | ⟨now, -, hedit⟩
  · exact hedits.routes_of_archived hinv hafter hroute
  · exact hedit.routes_of_archived hinv hbefore hafter hroute

/-- `LastArchiving ops id time before`: in the run of these operations, the model was archived last
at this time, by an operation on this ledger; it is archived in every later state. -/
def LastArchiving (u : Url.UnicodeData) (fernet : List Char → Option Fernet) (ops : List Op)
    (id time : ℕ) (before : Ledger) : Prop :=
  ∃ ops₁ key ops₂ row catalog, ops = ops₁ ++ .archiveChatModel key time :: ops₂ ∧
    run (Ledger.step u fernet) .start ops₁ = some before ∧
    archiveChatModel before.catalog key time = .ok (row, catalog) ∧ row.id = id ∧
    Throughout (Ledger.step u fernet) (fun l => l.catalog.ModelArchivedAt id time)
      ⟨catalog, time :: before.stamps⟩ ops₂

/-- **The batch of a model.** A model that is archived at the end of a run was archived by one
operation last, and its routes with that time are those that were unarchived then. -/
theorem exists_lastArchiving (hrun : run (Ledger.step u fernet) .start ops = some l)
    (hnodup : l.stamps.Nodup) (harchived : l.catalog.ModelArchivedAt id time) :
    ∃ before, LastArchiving u fernet ops id time before ∧
      ∀ route : ModelRoute, route.chatModelId = id → route.archivedAt = some time →
        (route ∈ l.catalog.routes ↔
          ({ route with archivedAt := none } : ModelRoute) ∈ before.catalog.routes) := by
  let Archived (m : Ledger) : Prop := m.catalog.ModelArchivedAt id time
  have hstart : ¬Archived .start := by
    rintro ⟨model, hmodel, -⟩
    exact absurd hmodel List.not_mem_nil
  have hend : Archived l := harchived
  obtain ⟨ops₁, op, ops₂, before, after, rfl, hfirst, hstep, hlast, hbefore, hsince⟩ :=
    exists_last_change hstart hend hrun
  obtain ⟨key, model, rfl, hmodel, rfl, rfl⟩ := step_archives hstep hbefore hsince.head
  have harchive : archiveChatModel before.catalog key time =
      .ok ({ model with archivedAt := some time }, before.catalog.modelArchived model time) :=
    archiveChatModel_eq_ok_iff.mpr ⟨model, hmodel, rfl, rfl⟩
  refine ⟨before, ⟨ops₁, key, ops₂, _, _, rfl, hfirst, harchive, rfl, hsince⟩, ?_⟩
  intro route hroute htime
  -- nothing happens to the routes of the model after it was archived
  have hnodupAfter : (time :: before.stamps).Nodup :=
    hnodup.sublist (stamps_suffix hlast).sublist
  have hafter : Ledger.Inv ⟨before.catalog.modelArchived model time, time :: before.stamps⟩ := by
    have hrunAfter := run_append.mpr ⟨before, hfirst, run_cons_iff.mpr ⟨_, hstep, run_nil⟩⟩
    exact run_inv hrunAfter hnodupAfter
  have hsame : route ∈ l.catalog.routes ↔
      route ∈ (before.catalog.modelArchived model time).routes := by
    have hkept : ∀ (m : Ledger) op m', ((m.stamps.Nodup → m.Inv) ∧ (m.stamps.Nodup →
        (route ∈ m.catalog.routes ↔ route ∈ (before.catalog.modelArchived model time).routes))) →
        m.catalog.ModelArchivedAt model.id time → m'.catalog.ModelArchivedAt model.id time →
        Ledger.step u fernet m op = some m' →
        (m'.stamps.Nodup → m'.Inv) ∧ (m'.stamps.Nodup →
          (route ∈ m'.catalog.routes ↔
            route ∈ (before.catalog.modelArchived model time).routes)) := by
      intro m op m' hm hp hp' hstep
      have hsuffix := stamps_suffix (run_cons_iff.mpr ⟨m', hstep, run_nil⟩)
      refine ⟨step_inv hstep hm.1, fun hn => ?_⟩
      have hold := hn.sublist hsuffix.sublist
      rw [routes_of_step hstep (hm.1 hold).catalog hp hp' hroute]
      exact hm.2 hold
    exact (run_invariant_throughout hkept ⟨fun _ => hafter, fun _ => Iff.rfl⟩ hsince hlast).2 hnodup
  -- the time was new when the model was archived
  have hnew : time ∉ before.stamps := (List.nodup_cons.mp hnodupAfter).1
  have hinv : before.Inv := run_inv hfirst (List.nodup_cons.mp hnodupAfter).2
  rw [hsame, Catalog.mem_routes_modelArchived]
  constructor
  · rintro ⟨old, hold, rfl⟩
    have hactive : old.archivedAt = none := by
      by_contra hne
      rw [Catalog.archivedWith_archivedAt, if_neg fun hin => hne hin.2] at htime
      exact hinv.fresh hnew old hold htime
    have hback : ({ old.archivedWith model.id time with archivedAt := none } :
      ModelRoute) = old := by
      cases old
      cases hactive
      rfl
    rw [hback]
    exact hold
  · intro hmem
    refine ⟨_, hmem, ?_⟩
    rw [ModelRoute.archivedWith, if_pos ⟨hroute, rfl⟩]
    cases route
    cases htime
    rfl

end Ledger

/-! ### The invariant of the catalog over runs -/

/-- A route that was archived and no longer is. -/
def Catalog.BroughtBack (w w' : Catalog) (routeId : ℕ) : Prop :=
  (∃ route ∈ w.routes, route.id = routeId ∧ route.archivedAt ≠ none) ∧
    ∃ route ∈ w'.routes, route.id = routeId ∧ route.archivedAt = none

/-- A restored model brings back its batch. -/
theorem Catalog.broughtBack_iff {model : ChatModelRow} {routeId : ℕ} :
    w.BroughtBack (w.modelRestored model time) routeId ↔
      ∃ route ∈ w.routes, route.id = routeId ∧ route.chatModelId = model.id ∧
        route.archivedAt = some time ∧
          ∃ upstream ∈ w.upstreams, upstream.id = route.upstreamId ∧
            upstream.archivedAt = none := by
  constructor
  · rintro ⟨⟨old, hold, hid, harchived⟩, ⟨new, hnew, hid', hactive⟩⟩
    obtain ⟨route, hroute, rfl⟩ := mem_routes_modelRestored.mp hnew
    obtain rfl : old = route := Table.eq_of_key_eq hold hroute (hid.trans hid'.symm)
    rcases (restoredWith_archivedAt hold).mp hactive with hnone | ⟨upstream, hbatch⟩
    · exact absurd hnone harchived
    · obtain ⟨-, hget, hmodel, htime, hu⟩ := mem_batch.mp hbatch
      exact ⟨old, hold, hid, hmodel, htime, upstream, Table.mem_of_get? hget,
        Table.key_of_get? hget, hu⟩
  · rintro ⟨route, hroute, hid, hmodel, htime, upstream, hupstream, hupstreamId, hu⟩
    have hget : w.upstreams.get? route.upstreamId = some upstream :=
      Table.get?_eq_some_iff.mpr ⟨hupstream, hupstreamId⟩
    have hbatch : (route, upstream) ∈ w.batch model.id time :=
      mem_batch.mpr ⟨hroute, hget, hmodel, htime, hu⟩
    refine ⟨⟨route, hroute, hid, ?_⟩, _, mem_routes_modelRestored.mpr ⟨route, hroute, rfl⟩, hid,
      (restoredWith_archivedAt hroute).mpr (.inr ⟨upstream, hbatch⟩)⟩
    rw [htime]
    exact Option.some_ne_none time

/-- **The catalog invariant, in every run.** Unarchived routes have unarchived parents and outputs
of the adapter of their upstream, unarchived rows are unique, the models can be read, and a
restored model brings back the routes that were archived with it last and whose upstream is
unarchived. -/
theorem catalog_safety {ops : List Op} {l : Ledger}
    (hrun : run (Ledger.step u fernet) .start ops = some l) (hdistinct : l.stamps.Nodup) :
    (∀ route ∈ l.catalog.routes, route.archivedAt = none →
      (∃ model ∈ l.catalog.models, model.id = route.chatModelId ∧ model.archivedAt = none) ∧
      ∃ upstream ∈ l.catalog.upstreams, upstream.id = route.upstreamId ∧
        upstream.archivedAt = none ∧ Allowed upstream.adapter route.reasoningOutputs) ∧
    (∀ model ∈ l.catalog.models, ∀ model' ∈ l.catalog.models, model.archivedAt = none →
      model'.archivedAt = none → model.key = model'.key → model = model') ∧
    (∀ upstream ∈ l.catalog.upstreams, ∀ upstream' ∈ l.catalog.upstreams,
      upstream.archivedAt = none → upstream'.archivedAt = none → upstream.key = upstream'.key →
        upstream = upstream') ∧
    (∀ route ∈ l.catalog.routes, ∀ route' ∈ l.catalog.routes, route.archivedAt = none →
      route'.archivedAt = none → route.target = route'.target → route = route') ∧
    (∃ models, databaseChatModels l.catalog = .ok models) ∧
    ∀ ref model catalog, restoreArchived l.catalog ref = .ok (.chatModel model, catalog) →
      ∃ time before, Ledger.LastArchiving u fernet ops model.id time before ∧
        ∀ routeId, l.catalog.BroughtBack catalog routeId ↔
          ∃ route ∈ before.catalog.routes, route.id = routeId ∧ route.chatModelId = model.id ∧
            route.archivedAt = none ∧ ∃ upstream ∈ l.catalog.upstreams,
              upstream.id = route.upstreamId ∧ upstream.archivedAt = none := by
  have hinv := Ledger.run_inv hrun hdistinct
  refine ⟨fun route hroute hr => ⟨hinv.catalog.active_model route hroute hr,
    hinv.catalog.active_upstream route hroute hr⟩, hinv.catalog.model_key,
    hinv.catalog.upstream_key, ?_, hinv.catalog.databaseChatModels_ok, ?_⟩
  · intro route hroute route' hroute' hr hr' htarget
    exact hinv.catalog.route_target route hroute route' hroute' trivial trivial
      (Prod.ext (hr.trans hr'.symm) htarget)
  · intro ref row catalog hrestore
    obtain ⟨model, hmodel, rfl, hrestore⟩ := restoreArchived_chatModel hrestore
    obtain ⟨time, harchived, -, -, -, rfl⟩ := restoreChatModel_eq_ok hrestore
    obtain ⟨before, hlast, hbatch⟩ :=
      Ledger.exists_lastArchiving hrun hdistinct ⟨model, hmodel, rfl, harchived⟩
    refine ⟨time, before, hlast, fun routeId => ?_⟩
    rw [Catalog.broughtBack_iff]
    constructor
    · rintro ⟨route, hroute, hid, hmodelId, htime, hupstream⟩
      exact ⟨_, (hbatch route hmodelId htime).mp hroute, hid, hmodelId, rfl, hupstream⟩
    · rintro ⟨route, hroute, hid, hmodelId, hactive, hupstream⟩
      have hback : ({ { route with archivedAt := some time } with archivedAt := none } :
          ModelRoute) = route := by
        cases route
        cases hactive
        rfl
      refine ⟨{ route with archivedAt := some time }, ?_, hid, hmodelId, rfl, hupstream⟩
      rw [hbatch { route with archivedAt := some time } hmodelId rfl, hback]
      exact hroute

/-- A cipher that hides nothing: it accepts every key. -/
def plainFernet (_ : List Char) : Option Fernet := some ⟨fun _ secret => secret, some⟩

/-- Settings with one DeepSeek model, no OpenAI key and an encryption key. -/
def deepseekSettings : Settings where
  deepseekApiKey := "key".toList
  deepseekBaseUrl := "https://api.deepseek.com".toList
  deepseekModels := "flash".toList
  deepseekThinkingEnabled := false
  deepseekReasoningEffort := "high"
  openaiApiKey := []
  openaiBaseUrl := "https://api.openai.com/v1".toList
  openaiModels := "gpt-5-mini".toList
  openaiVisionModels := []
  openaiImageTokenReserve := 8192
  modelCatalogEncryptionKey := "secret".toList
  filesR2EndpointUrl := []
  filesStagingBucket := []
  filesCanonicalBucket := []
  filesPreviewBucket := []
  filesPreviewApiAccessKeyId := []
  filesPreviewApiSecretAccessKey := []
  filesPreviewLlmAccessKeyId := []
  filesPreviewLlmSecretAccessKey := []

/-- The environment is imported, a second route is added and archived, and then the model with the
first. -/
def archivedModel : List Op :=
  let flash := "flash".toList
  let upstream := "deepseek-official".toList
  [.importEnvironmentCatalog deepseekSettings 0 1,
    .upsertModelRoute ⟨flash, upstream, "flash-2".toList, 1, none, some true⟩,
    .archiveModelRoute flash upstream "flash-2".toList 10,
    .archiveChatModel flash 11]

theorem catalog_safety_archivedModel :
    ∃ l, run (Ledger.step .ascii plainFernet) .start archivedModel = some l ∧
      l.stamps = [11, 10] ∧ l.catalog.routes.rows.map ModelRoute.archivedAt = [some 11, some 10] ∧
      ∃ models, databaseChatModels l.catalog = .ok models := by
  obtain ⟨l, hrun, hstamps, hroutes⟩ := exists_run
    (by decide +kernel : ((run (Ledger.step .ascii plainFernet) .start archivedModel).any fun l =>
      decide (l.stamps = [11, 10] ∧
        l.catalog.routes.rows.map ModelRoute.archivedAt = [some 11, some 10])) = true)
  have hdistinct : l.stamps.Nodup := by
    rw [hstamps]
    decide
  exact ⟨l, hrun, hstamps, hroutes, (catalog_safety hrun hdistinct).2.2.2.2.1⟩

end IChat.ModelCatalog
