import IChat.General.PartialIndex
import IChat.General.StepSystem
import IChat.ModelCatalog.Edits

/-!
# The invariant of the catalog

`Catalog.Inv` holds of the empty catalog and is kept by every edit that archives rows at a time no
route was archived at before. It says of the unarchived part of the tables that routes have
unarchived parents, that outputs are those of the adapter and that the partial indexes are unique.
Of the archived part it says that the routes of one batch have distinct targets, which is what
lets a model be restored.
-/

namespace IChat.ModelCatalog

variable {u : Url.UnicodeData} {fernet : List Char → Option Fernet} {w w' : Catalog}
  {stamp : Option ℕ}

/-- The invariant of the catalog. -/
structure Catalog.Inv (w : Catalog) : Prop where
  model_valid : ∀ model ∈ w.models, model.Valid
  upstream_valid : ∀ upstream ∈ w.upstreams, upstream.adapter ∈ adapters
  model_key : w.models.UniqueWhere (fun model => model.archivedAt = none) ChatModelRow.key
  upstream_key : w.upstreams.UniqueWhere (fun upstream => upstream.archivedAt = none)
    ModelUpstream.key
  /-- The routes of one batch, and those of none, have distinct targets. -/
  route_target : w.routes.UniqueWhere (fun _ => True) fun route => (route.archivedAt, route.target)
  active_model : ∀ route ∈ w.routes, route.archivedAt = none →
    ∃ model ∈ w.models, model.id = route.chatModelId ∧ model.archivedAt = none
  active_upstream : ∀ route ∈ w.routes, route.archivedAt = none →
    ∃ upstream ∈ w.upstreams, upstream.id = route.upstreamId ∧ upstream.archivedAt = none ∧
      Allowed upstream.adapter route.reasoningOutputs

namespace Catalog

theorem Inv.empty : Catalog.empty.Inv where
  model_valid _ h := absurd h List.not_mem_nil
  upstream_valid _ h := absurd h List.not_mem_nil
  model_key _ h := absurd h List.not_mem_nil
  upstream_key _ h := absurd h List.not_mem_nil
  route_target _ h := absurd h List.not_mem_nil
  active_model _ h := absurd h List.not_mem_nil
  active_upstream _ h := absurd h List.not_mem_nil

/-- The routes of an archived model are archived. -/
theorem Inv.archived_of_model (h : w.Inv) {route : ModelRoute} {model : ChatModelRow}
    (hroute : route ∈ w.routes) (hmodel : model ∈ w.models) (hid : model.id = route.chatModelId)
    (harchived : model.archivedAt ≠ none) : route.archivedAt ≠ none := by
  intro hactive
  obtain ⟨parent, hparent, hparentId, hparentActive⟩ := h.active_model route hroute hactive
  have hsame : model = parent := Table.eq_of_key_eq hmodel hparent (hid.trans hparentId.symm)
  exact harchived (hsame ▸ hparentActive)

/-! ### One table at a time -/

/-- A change of the models alone keeps the invariant when the parents of routes stay. -/
theorem Inv.of_models (h : w.Inv) {models : Table ChatModelRow ChatModelRow.id}
    (hvalid : ∀ model ∈ models, model.Valid)
    (hkey : models.UniqueWhere (fun model => model.archivedAt = none) ChatModelRow.key)
    (hactive : ∀ model ∈ w.models, model.archivedAt = none →
      ∃ model' ∈ models, model'.id = model.id ∧ model'.archivedAt = none) :
    Inv { w with models := models } where
  model_valid := hvalid
  upstream_valid := h.upstream_valid
  model_key := hkey
  upstream_key := h.upstream_key
  route_target := h.route_target
  active_model route hroute hr := by
    obtain ⟨model, hmodel, hid, hm⟩ := h.active_model route hroute hr
    obtain ⟨model', hmodel', hid', hm'⟩ := hactive model hmodel hm
    exact ⟨model', hmodel', hid'.trans hid, hm'⟩
  active_upstream := h.active_upstream

/-- A change of the upstreams alone keeps the invariant when those with unarchived routes stay and
their adapters allow the outputs. -/
theorem Inv.of_upstreams (h : w.Inv) {upstreams : Table ModelUpstream ModelUpstream.id}
    (hvalid : ∀ upstream ∈ upstreams, upstream.adapter ∈ adapters)
    (hkey : upstreams.UniqueWhere (fun upstream => upstream.archivedAt = none) ModelUpstream.key)
    (hactive : ∀ route ∈ w.routes, route.archivedAt = none → ∀ upstream ∈ w.upstreams,
      upstream.id = route.upstreamId → upstream.archivedAt = none →
        Allowed upstream.adapter route.reasoningOutputs →
      ∃ upstream' ∈ upstreams, upstream'.id = upstream.id ∧ upstream'.archivedAt = none ∧
        Allowed upstream'.adapter route.reasoningOutputs) :
    Inv { w with upstreams := upstreams } where
  model_valid := h.model_valid
  upstream_valid := hvalid
  model_key := h.model_key
  upstream_key := hkey
  route_target := h.route_target
  active_model := h.active_model
  active_upstream route hroute hr := by
    obtain ⟨upstream, hupstream, hid, hu, hallowed⟩ := h.active_upstream route hroute hr
    obtain ⟨upstream', hupstream', hid', hu', hallowed'⟩ :=
      hactive route hroute hr upstream hupstream hid hu hallowed
    exact ⟨upstream', hupstream', hid'.trans hid, hu', hallowed'⟩

/-- A row that is written back with its key keeps every row's place. -/
theorem exists_active_set {α : Type} {key : α → ℕ} {t : Table α key} {archived : α → Option ℕ}
    {old new a : α} (hold : old ∈ t) (hkey : key new = key old)
    (harchived : archived new = archived old) (ha : a ∈ t) (hactive : archived a = none) :
    ∃ b ∈ t.set new, key b = key a ∧ archived b = none := by
  by_cases hsame : key a = key new
  · have heq : a = old := Table.eq_of_key_eq ha hold (hsame.trans hkey)
    have hmem : new ∈ t.set new := (Table.mem_set ⟨old, hold, hkey.symm⟩).mpr (.inl rfl)
    exact ⟨new, hmem, hsame.symm, by rw [harchived, ← heq, hactive]⟩
  · exact ⟨a, Table.mem_set_of_ne ha hsame, rfl, hactive⟩

/-! ### Edits -/

theorem Inv.newModel (h : w.Inv) {mk : ℕ → ChatModelRow} {hmk : ∀ id, (mk id).id = id}
    (hfree : ∀ model ∈ w.models, model.archivedAt = none → model.key ≠ (mk w.models.next).key)
    (hvalid : (mk w.models.next).Valid) :
    Inv { w with models := w.models.insert mk hmk } := by
  refine h.of_models ?_ (h.model_key.insert hmk fun _ => hfree) fun model hmodel hm =>
    ⟨model, Table.mem_insert.mpr (.inl hmodel), rfl, hm⟩
  intro model hmodel
  rcases Table.mem_insert.mp hmodel with hmodel | rfl
  · exact h.model_valid model hmodel
  · exact hvalid

theorem Inv.setModel (h : w.Inv) {old new : ChatModelRow} (hold : old ∈ w.models)
    (hid : new.id = old.id) (hkey : new.key = old.key) (harchived : new.archivedAt = old.archivedAt)
    (hvalid : old.Valid → new.Valid) : Inv { w with models := w.models.set new } := by
  have hsame : new.archivedAt = none → old.archivedAt = none := fun hnew => harchived ▸ hnew
  refine h.of_models ?_ (h.model_key.set_same hold hid hsame hkey) fun model hmodel hm =>
    exists_active_set hold hid harchived hmodel hm
  intro model hmodel
  rcases Table.of_mem_set hmodel with rfl | ⟨hmodel, -⟩
  · exact hvalid (h.model_valid old hold)
  · exact h.model_valid model hmodel

theorem Inv.newUpstream (h : w.Inv) {mk : ℕ → ModelUpstream} {hmk : ∀ id, (mk id).id = id}
    (hfree : ∀ upstream ∈ w.upstreams, upstream.archivedAt = none →
      upstream.key ≠ (mk w.upstreams.next).key)
    (hvalid : (mk w.upstreams.next).adapter ∈ adapters) :
    Inv { w with upstreams := w.upstreams.insert mk hmk } := by
  refine h.of_upstreams ?_ (h.upstream_key.insert hmk fun _ => hfree)
    fun route _ _ upstream hupstream _ hu hallowed =>
      ⟨upstream, Table.mem_insert.mpr (.inl hupstream), rfl, hu, hallowed⟩
  intro upstream hupstream
  rcases Table.mem_insert.mp hupstream with hupstream | rfl
  · exact h.upstream_valid upstream hupstream
  · exact hvalid

theorem Inv.setUpstream (h : w.Inv) {old new : ModelUpstream} (hold : old ∈ w.upstreams)
    (hid : new.id = old.id) (hkey : new.key = old.key) (harchived : new.archivedAt = old.archivedAt)
    (hvalid : old.adapter ∈ adapters → new.adapter ∈ adapters)
    (hroutes : ∀ route ∈ w.routes, route.upstreamId = old.id → route.archivedAt = none →
      Allowed old.adapter route.reasoningOutputs → Allowed new.adapter route.reasoningOutputs) :
    Inv { w with upstreams := w.upstreams.set new } := by
  have hsame : new.archivedAt = none → old.archivedAt = none := fun hnew => harchived ▸ hnew
  refine h.of_upstreams ?_ (h.upstream_key.set_same hold hid hsame hkey) ?_
  · intro upstream hupstream
    rcases Table.of_mem_set hupstream with rfl | ⟨hupstream, -⟩
    · exact hvalid (h.upstream_valid old hold)
    · exact h.upstream_valid upstream hupstream
  · intro route hroute hr upstream hupstream hrouteId hu hallowed
    by_cases hwritten : upstream.id = new.id
    · have heq : upstream = old := Table.eq_of_key_eq hupstream hold (hwritten.trans hid)
      subst heq
      have hmem : new ∈ w.upstreams.set new :=
        (Table.mem_set ⟨upstream, hold, hwritten⟩).mpr (.inl rfl)
      exact ⟨new, hmem, hid, harchived.trans hu, hroutes route hroute hrouteId.symm hr hallowed⟩
    · exact ⟨upstream, Table.mem_set_of_ne hupstream hwritten, rfl, hu, hallowed⟩

theorem Inv.newRoute (h : w.Inv) {mk : ℕ → ModelRoute} {hmk : ∀ id, (mk id).id = id}
    {model : ChatModelRow} {upstream : ModelUpstream} (hmodel : model ∈ w.models)
    (hactive : model.archivedAt = none) (hupstream : upstream ∈ w.upstreams)
    (hactive' : upstream.archivedAt = none) (hmodelId : (mk w.routes.next).chatModelId = model.id)
    (hupstreamId : (mk w.routes.next).upstreamId = upstream.id)
    (hnew : (mk w.routes.next).archivedAt = none)
    (hfree : ∀ route ∈ w.routes, route.archivedAt = none → route.target ≠ (mk w.routes.next).target)
    (hallowed : Allowed upstream.adapter (mk w.routes.next).reasoningOutputs) :
    Inv { w with routes := w.routes.insert mk hmk } where
  model_valid := h.model_valid
  upstream_valid := h.upstream_valid
  model_key := h.model_key
  upstream_key := h.upstream_key
  route_target := by
    refine h.route_target.insert hmk fun _ route hroute _ heq => ?_
    obtain ⟨harchived, htarget⟩ := Prod.mk.inj heq
    exact hfree route hroute (harchived.trans hnew) htarget
  active_model route hroute hr := by
    have hroute : route ∈ w.routes.insert mk hmk := hroute
    rcases Table.mem_insert.mp hroute with hroute | rfl
    · exact h.active_model route hroute hr
    · exact ⟨model, hmodel, hmodelId.symm, hactive⟩
  active_upstream route hroute hr := by
    have hroute : route ∈ w.routes.insert mk hmk := hroute
    rcases Table.mem_insert.mp hroute with hroute | rfl
    · exact h.active_upstream route hroute hr
    · exact ⟨upstream, hupstream, hupstreamId.symm, hactive', hallowed⟩

/-- One route is written back, archived or with unarchived parents that allow it. -/
theorem Inv.writeRoute (h : w.Inv) {new : ModelRoute}
    (hindex : ∀ route ∈ w.routes, route.id ≠ new.id →
      (route.archivedAt, route.target) ≠ (new.archivedAt, new.target))
    (hmodel : new.archivedAt = none →
      ∃ model ∈ w.models, model.id = new.chatModelId ∧ model.archivedAt = none)
    (hupstream : new.archivedAt = none →
      ∃ upstream ∈ w.upstreams, upstream.id = new.upstreamId ∧ upstream.archivedAt = none ∧
        Allowed upstream.adapter new.reasoningOutputs) :
    Inv { w with routes := w.routes.set new } where
  model_valid := h.model_valid
  upstream_valid := h.upstream_valid
  model_key := h.model_key
  upstream_key := h.upstream_key
  route_target := h.route_target.set fun _ route hroute hne _ => hindex route hroute hne
  active_model route hroute hr := by
    rcases Table.of_mem_set hroute with rfl | ⟨hroute, -⟩
    · exact hmodel hr
    · exact h.active_model route hroute hr
  active_upstream route hroute hr := by
    rcases Table.of_mem_set hroute with rfl | ⟨hroute, -⟩
    · exact hupstream hr
    · exact h.active_upstream route hroute hr

theorem Inv.setRoute (h : w.Inv) {old new : ModelRoute} (hold : old ∈ w.routes)
    (hid : new.id = old.id) (htarget : new.target = old.target) (hactive : old.archivedAt = none)
    (harchived : new.archivedAt = none)
    (hallowed : ∀ upstream ∈ w.upstreams, upstream.id = old.upstreamId →
      Allowed upstream.adapter old.reasoningOutputs →
        Allowed upstream.adapter new.reasoningOutputs) :
    Inv { w with routes := w.routes.set new } := by
  obtain ⟨hmodelId, hrest⟩ := Prod.mk.inj htarget
  obtain ⟨hupstreamId, -⟩ := Prod.mk.inj hrest
  refine h.writeRoute ?_ (fun _ => ?_) fun _ => ?_
  · intro route hroute hne heq
    refine hne ?_
    rw [harchived, htarget, ← hactive] at heq
    rw [h.route_target route hroute old hold trivial trivial heq, hid]
  · rw [hmodelId]
    exact h.active_model old hold hactive
  · rw [hupstreamId]
    obtain ⟨upstream, hmem, hupstream, hu, hold'⟩ := h.active_upstream old hold hactive
    exact ⟨upstream, hmem, hupstream, hu, hallowed upstream hmem hupstream hold'⟩

/-- No route was archived at a time that is new. -/
def Fresh (w : Catalog) (now : ℕ) : Prop := ∀ route ∈ w.routes, route.archivedAt ≠ some now

theorem archivedWith_archivedAt {chatModelId now : ℕ} {route : ModelRoute} :
    (route.archivedWith chatModelId now).archivedAt =
      if route.chatModelId = chatModelId ∧ route.archivedAt = none then some now
      else route.archivedAt := rfl

theorem Inv.archiveModel (h : w.Inv) {model : ChatModelRow} {now : ℕ} (hmodel : model ∈ w.models)
    (hfresh : w.Fresh now) :
    (w.modelArchived model now).Inv where
  model_valid row hrow := by
    rcases (mem_models_modelArchived hmodel).mp hrow with rfl | ⟨hrow, -⟩
    · exact h.model_valid model hmodel
    · exact h.model_valid row hrow
  upstream_valid := h.upstream_valid
  model_key := by
    refine h.model_key.set fun hactive => ?_
    cases hactive
  upstream_key := h.upstream_key
  route_target := by
    have hid : ∀ route, (ModelRoute.archivedWith model.id now route).id = route.id := fun _ => rfl
    refine h.route_target.map hid fun route hroute route' hroute' _ _ heq => ?_
    refine ⟨trivial, trivial, ?_⟩
    obtain ⟨harchived, htarget⟩ := Prod.mk.inj heq
    obtain ⟨hsameModel, -⟩ := Prod.mk.inj htarget
    have htargets : route.target = route'.target := htarget
    refine Prod.ext ?_ htargets
    -- of two routes of one model, both were unarchived or none was: the time is new
    have hnew := hfresh route hroute
    have hnew' := hfresh route' hroute'
    simp only [archivedWith_archivedAt] at harchived
    change route.chatModelId = route'.chatModelId at hsameModel
    rw [hsameModel] at harchived
    by_cases hin : route'.chatModelId = model.id <;>
      by_cases hr : route.archivedAt = none <;>
      by_cases hr' : route'.archivedAt = none <;> simp_all
  active_model route' hroute' hr := by
    obtain ⟨route, hroute, rfl⟩ := mem_routes_modelArchived.mp hroute'
    rw [archivedWith_archivedAt] at hr
    have hactive : route.archivedAt = none := by
      by_cases hin : route.chatModelId = model.id ∧ route.archivedAt = none
      · exact hin.2
      · rwa [if_neg hin] at hr
    have hother : route.chatModelId ≠ model.id := by
      intro hin
      rw [if_pos ⟨hin, hactive⟩] at hr
      cases hr
    obtain ⟨parent, hparent, hparentId, hp⟩ := h.active_model route hroute hactive
    exact ⟨parent, Table.mem_set_of_ne hparent (hparentId ▸ hother), hparentId, hp⟩
  active_upstream route' hroute' hr := by
    obtain ⟨route, hroute, rfl⟩ := mem_routes_modelArchived.mp hroute'
    rw [archivedWith_archivedAt] at hr
    refine h.active_upstream route hroute ?_
    by_cases hin : route.chatModelId = model.id ∧ route.archivedAt = none
    · exact hin.2
    · rwa [if_neg hin] at hr

theorem Inv.archiveUpstream (h : w.Inv) {upstream : ModelUpstream} {now : ℕ}
    (hupstream : upstream ∈ w.upstreams)
    (hroutes : ∀ route ∈ w.routes, route.upstreamId = upstream.id → route.archivedAt = none →
      w.models.get? route.chatModelId = none) :
    Inv { w with upstreams := w.upstreams.set { upstream with archivedAt := some now } } := by
  refine h.of_upstreams ?_ (h.upstream_key.set fun hactive => ?_) ?_
  · intro row hrow
    rcases Table.of_mem_set hrow with rfl | ⟨hrow, -⟩
    · exact h.upstream_valid upstream hupstream
    · exact h.upstream_valid row hrow
  · cases hactive
  · intro route hroute hr row hrow hid hactive hallowed
    have hne : row.id ≠ upstream.id := by
      intro hsame
      obtain ⟨model, hmodel, hmodelId, -⟩ := h.active_model route hroute hr
      have hnone := hroutes route hroute (hid.symm.trans hsame) hr
      rw [← hmodelId, Table.get?_key hmodel] at hnone
      cases hnone
    exact ⟨row, Table.mem_set_of_ne hrow hne, rfl, hactive, hallowed⟩

theorem Inv.archiveRoute (h : w.Inv) {route : ModelRoute} {now : ℕ} (hfresh : w.Fresh now) :
    Inv { w with routes := w.routes.set { route with archivedAt := some now } } := by
  refine h.writeRoute (fun row hrow _ heq => ?_) (fun hactive => ?_) fun hactive => ?_
  · exact hfresh row hrow (Prod.mk.inj heq).1
  · cases hactive
  · cases hactive

theorem Inv.restoreModel (h : w.Inv) {model : ChatModelRow} {archivedAt : ℕ}
    (hmodel : model ∈ w.models) (harchived : model.archivedAt = some archivedAt)
    (hfree : ∀ model' ∈ w.models, model'.archivedAt = none → model'.key ≠ model.key)
    (hallowed : ∀ row ∈ w.batch model.id archivedAt,
      Allowed row.2.adapter row.1.reasoningOutputs) :
    (w.modelRestored model archivedAt).Inv where
  model_valid row hrow := by
    rcases (mem_models_modelRestored hmodel).mp hrow with rfl | ⟨hrow, -⟩
    · exact h.model_valid model hmodel
    · exact h.model_valid row hrow
  upstream_valid := h.upstream_valid
  model_key := h.model_key.set fun _ row hrow _ => hfree row hrow
  upstream_key := h.upstream_key
  route_target := by
    have hid : ∀ route, (ModelRoute.restoredWith (w.batch model.id archivedAt) route).id =
      route.id := fun _ => rfl
    refine h.route_target.map hid fun route hroute route' hroute' _ _ heq => ?_
    refine ⟨trivial, trivial, ?_⟩
    obtain ⟨hsame, htarget⟩ := Prod.mk.inj heq
    have htargets : route.target = route'.target := htarget
    have hmodels : route.chatModelId = route'.chatModelId := congrArg Prod.fst htargets
    refine Prod.ext ?_ htargets
    by_cases hafter : (route.restoredWith (w.batch model.id archivedAt)).archivedAt = none
    · -- the unarchived routes of the model are those of the batch, the others were unarchived
      have hbefore : ∀ row ∈ w.routes,
          (row.restoredWith (w.batch model.id archivedAt)).archivedAt = none →
            row.archivedAt = if row.chatModelId = model.id then some archivedAt else none := by
        intro row hrow hrestored
        rcases (restoredWith_archivedAt hrow).mp hrestored with hactive | ⟨upstream, hbatch⟩
        · have hother : row.chatModelId ≠ model.id := fun hin =>
            h.archived_of_model hrow hmodel hin.symm (by simp [harchived]) hactive
          rw [if_neg hother, hactive]
        · obtain ⟨-, -, hin, hat, -⟩ := mem_batch.mp hbatch
          rw [if_pos hin, hat]
      rw [hbefore route hroute hafter, hbefore route' hroute' (hsame ▸ hafter), hmodels]
    · rw [← restoredWith_archivedAt_of_ne hafter, hsame]
      exact restoredWith_archivedAt_of_ne (hsame ▸ hafter)
  active_model route' hroute' hr := by
    obtain ⟨route, hroute, rfl⟩ := mem_routes_modelRestored.mp hroute'
    rcases (restoredWith_archivedAt hroute).mp hr with hactive | ⟨upstream, hbatch⟩
    · obtain ⟨parent, hparent, hparentId, hp⟩ := h.active_model route hroute hactive
      have hother : parent.id ≠ model.id := by
        intro hsame
        have heq : parent = model := Table.eq_of_key_eq hparent hmodel hsame
        rw [heq, harchived] at hp
        cases hp
      exact ⟨parent, (mem_models_modelRestored hmodel).mpr (.inr ⟨hparent, hother⟩), hparentId, hp⟩
    · obtain ⟨-, -, hin, -, -⟩ := mem_batch.mp hbatch
      exact ⟨_, (mem_models_modelRestored hmodel).mpr (.inl rfl), hin.symm, rfl⟩
  active_upstream route' hroute' hr := by
    obtain ⟨route, hroute, rfl⟩ := mem_routes_modelRestored.mp hroute'
    rcases (restoredWith_archivedAt hroute).mp hr with hactive | ⟨upstream, hbatch⟩
    · exact h.active_upstream route hroute hactive
    · obtain ⟨-, hget, -, -, hu⟩ := mem_batch.mp hbatch
      exact ⟨upstream, Table.mem_of_get? hget, Table.key_of_get? hget, hu, hallowed _ hbatch⟩

theorem Inv.restoreUpstream (h : w.Inv) {upstream : ModelUpstream}
    (hupstream : upstream ∈ w.upstreams)
    (hfree : ∀ upstream' ∈ w.upstreams, upstream'.archivedAt = none →
      upstream'.key ≠ upstream.key) :
    Inv { w with upstreams := w.upstreams.set { upstream with archivedAt := none } } := by
  refine h.of_upstreams ?_ (h.upstream_key.set fun _ row hrow _ => hfree row hrow) ?_
  · intro row hrow
    rcases Table.of_mem_set hrow with rfl | ⟨hrow, -⟩
    · exact h.upstream_valid upstream hupstream
    · exact h.upstream_valid row hrow
  · intro route hroute hr row hrow hid hactive hallowed
    by_cases hsame : row.id = upstream.id
    · have heq : row = upstream := Table.eq_of_key_eq hrow hupstream hsame
      subst heq
      exact absurd rfl (hfree row hrow hactive)
    · exact ⟨row, Table.mem_set_of_ne hrow hsame, rfl, hactive, hallowed⟩

theorem Inv.restoreRoute (h : w.Inv) {route : ModelRoute} {model : ChatModelRow}
    {upstream : ModelUpstream} (hmodel : model ∈ w.models) (hmodelId : model.id = route.chatModelId)
    (hactive : model.archivedAt = none) (hupstream : upstream ∈ w.upstreams)
    (hupstreamId : upstream.id = route.upstreamId) (hactive' : upstream.archivedAt = none)
    (hfree : ∀ route' ∈ w.routes, route'.archivedAt = none → route'.target ≠ route.target)
    (hallowed : Allowed upstream.adapter route.reasoningOutputs) :
    Inv { w with routes := w.routes.set { route with archivedAt := none } } := by
  refine h.writeRoute (fun row hrow _ heq => ?_) (fun _ => ⟨model, hmodel, hmodelId, hactive⟩)
    fun _ => ⟨upstream, hupstream, hupstreamId, hactive', hallowed⟩
  obtain ⟨harchived, htarget⟩ := Prod.mk.inj heq
  exact hfree row hrow harchived htarget

/-- **Every edit keeps the invariant**, if it archives at a new time. -/
theorem Edit.inv (hedit : w.Edit stamp w') (hfresh : ∀ now ∈ stamp, w.Fresh now) (h : w.Inv) :
    w'.Inv := by
  cases hedit with
  | source =>
    exact ⟨h.model_valid, h.upstream_valid, h.model_key, h.upstream_key, h.route_target,
      h.active_model, h.active_upstream⟩
  | newModel hfree hnew hvalid => exact h.newModel hfree hvalid
  | setModel hold hid hkey harchived hvalid => exact h.setModel hold hid hkey harchived hvalid
  | newUpstream hfree hvalid => exact h.newUpstream hfree hvalid
  | setUpstream hold hid hkey harchived hvalid hroutes =>
    exact h.setUpstream hold hid hkey harchived hvalid hroutes
  | newRoute hmodel hactive hupstream hactive' hmodelId hupstreamId hnew hfree hallowed =>
    exact h.newRoute hmodel hactive hupstream hactive' hmodelId hupstreamId hnew hfree hallowed
  | setRoute hold hid htarget hactive harchived hallowed =>
    exact h.setRoute hold hid htarget hactive harchived hallowed
  | archiveModel hmodel hactive now => exact h.archiveModel hmodel (hfresh now rfl)
  | archiveUpstream hupstream hroutes => exact h.archiveUpstream hupstream hroutes
  | archiveRoute hroute hactive now => exact h.archiveRoute (hfresh now rfl)
  | restoreModel hmodel harchived hfree hallowed =>
    exact h.restoreModel hmodel harchived hfree hallowed
  | restoreUpstream hupstream hfree => exact h.restoreUpstream hupstream hfree
  | restoreRoute hroute harchived hmodel hmodelId hactive hupstream hupstreamId hactive' hfree
      hallowed =>
    exact h.restoreRoute hmodel hmodelId hactive hupstream hupstreamId hactive' hfree hallowed

theorem Edits.inv (hedits : w.Edits w') (h : w.Inv) : w'.Inv := by
  induction hedits with
  | refl => exact h
  | tail _ hedit ih => exact hedit.inv (fun now hnow => by cases hnow) ih

end Catalog

end IChat.ModelCatalog
