import IChat.General.Lists
import IChat.Search.SourceRegistry

/-!
# Citation ids

What the ids of a registry say about the sources it was restored from (`records prior`).

* `restore_sound`: a restored registry knows the records whose id has one URL only, each id by its
  first record, and its next id is above all of theirs.
* `Sound` is what `register` keeps: a URL has one id, an id one URL; a URL that is known keeps the
  earliest id it has, and another gets an id above all prior ones.
* `Sound.consistent`: an id of the registry names no other URL in the prior sources, and so it is
  not an ambiguous one.
-/

namespace IChat.Search

open Url

/-- The sources that a registry can be restored from. -/
def records (prior : List Dict) : List SourceRecord := prior.filterMap recordFromMetadata

theorem records_cons (item : Dict) (items : List Dict) :
    records (item :: items) = (recordFromMetadata item).toList ++ records items := by
  unfold records
  cases hrecord : recordFromMetadata item <;> simp [hrecord]

/-- An id with two URLs. -/
def Ambiguous (u : UnicodeData) (prior : List SourceRecord) (id : ℕ) : Prop :=
  ∃ r ∈ prior, ∃ r' ∈ prior, r.id = id ∧ r'.id = id ∧ normalizeUrl u r.url ≠ normalizeUrl u r'.url

variable {u : UnicodeData}

theorem Ambiguous.mono {prior prior' : List SourceRecord} {id : ℕ} (h : Ambiguous u prior id)
    (hsub : ∀ r ∈ prior, r ∈ prior') : Ambiguous u prior' id := by
  obtain ⟨r, hr, r', hr', hrest⟩ := h
  exact ⟨r, hsub r hr, r', hsub r' hr', hrest⟩

/-! ### Restoring -/

/-- What has been collected of the records that were visited. -/
structure PriorSources.Collects (u : UnicodeData) (visited : List SourceRecord)
    (prior : PriorSources) : Prop where
  le_max : ∀ r ∈ visited, r.id ≤ prior.maxId
  defined : ∀ r ∈ visited, (normalizeUrl u r.url).isSome
  covered : ∀ r ∈ visited, ∃ first, (r.id, first) ∈ prior.byId ∧
    (r.id ∉ prior.ambiguous → normalizeUrl u first.url = normalizeUrl u r.url)
  own_id : ∀ entry ∈ prior.byId, entry.2.id = entry.1
  nodup : (prior.byId.map Prod.fst).Nodup
  ambiguous : ∀ id ∈ prior.ambiguous, Ambiguous u visited id
  /-- The entries stand in the order in which their ids appear. -/
  ordered : ∀ before entry after, prior.byId = before ++ entry :: after →
    ∃ old rest, visited = old ++ entry.2 :: rest ∧ ∀ r ∈ old, r.id ∈ before.map Prod.fst

variable {prior prior' : PriorSources} {item : Dict} {record : SourceRecord}
  {visited : List SourceRecord}

/-- What a record adds: nothing but a conflict when its id is known, its entry otherwise. -/
theorem addPrior_eq_some (hrecord : recordFromMetadata item = some record)
    (h : addPrior u prior item = some prior') :
    ∃ recordUrl, normalizeUrl u record.url = some recordUrl ∧
      ((∃ existing url, prior.byId.lookup record.id = some existing ∧
          normalizeUrl u existing.url = some url ∧
          prior' =
            { byId := prior.byId
              ambiguous := if url ≠ recordUrl then record.id :: prior.ambiguous else prior.ambiguous
              maxId := max prior.maxId record.id }) ∨
        prior.byId.lookup record.id = none ∧
          prior' =
            { byId := prior.byId ++ [(record.id, record)]
              ambiguous := prior.ambiguous
              maxId := max prior.maxId record.id }) := by
  simp only [addPrior, hrecord, Option.bind_eq_bind, Option.bind_eq_some_iff,
    Option.some.injEq] at h
  cases hlookup : prior.byId.lookup record.id with
  | some existing =>
    simp only [hlookup] at h
    obtain ⟨url, hurl, recordUrl, hrecordUrl, rfl⟩ := h
    exact ⟨recordUrl, hrecordUrl, .inl ⟨existing, url, rfl, hurl, rfl⟩⟩
  | none =>
    simp only [hlookup] at h
    obtain ⟨url, hurl, recordUrl, hrecordUrl, rfl⟩ := h
    obtain rfl : url = recordUrl := Option.eq_some_unique hurl hrecordUrl
    exact ⟨url, hurl, .inr ⟨rfl, by simp⟩⟩

theorem PriorSources.Collects.add_known {existing : SourceRecord} {url recordUrl : String}
    (h : prior.Collects u visited) (hexisting : (record.id, existing) ∈ prior.byId)
    (hurl : normalizeUrl u existing.url = some url)
    (hrecord : normalizeUrl u record.url = some recordUrl) :
    PriorSources.Collects u (visited ++ [record])
      { byId := prior.byId
        ambiguous := if url ≠ recordUrl then record.id :: prior.ambiguous else prior.ambiguous
        maxId := max prior.maxId record.id } where
  le_max r hr := by
    rcases List.mem_append.mp hr with hold | hnew
    · exact Nat.le_trans (h.le_max r hold) (Nat.le_max_left _ _)
    · rw [List.mem_singleton.mp hnew]
      exact Nat.le_max_right _ _
  defined r hr := by
    rcases List.mem_append.mp hr with hold | hnew
    · exact h.defined r hold
    · rw [List.mem_singleton.mp hnew, hrecord]
      rfl
  covered r hr := by
    rcases List.mem_append.mp hr with hold | hnew
    · obtain ⟨first, hfirst, heq⟩ := h.covered r hold
      refine ⟨first, hfirst, fun hclear => heq fun hmem => hclear ?_⟩
      show r.id ∈ if url ≠ recordUrl then record.id :: prior.ambiguous else prior.ambiguous
      split_ifs
      · exact List.mem_cons_of_mem _ hmem
      · exact hmem
    · rw [List.mem_singleton.mp hnew]
      refine ⟨existing, hexisting, fun hclear => ?_⟩
      have hsame : url = recordUrl := by
        by_contra hne
        refine hclear ?_
        show record.id ∈ if url ≠ recordUrl then record.id :: prior.ambiguous else prior.ambiguous
        rw [if_pos hne]
        exact List.mem_cons_self
      rw [hurl, hrecord, hsame]
  own_id := h.own_id
  nodup := h.nodup
  ambiguous id hid := by
    have hold : id ∈ prior.ambiguous → Ambiguous u (visited ++ [record]) id := fun hmem =>
      (h.ambiguous id hmem).mono fun r hr => List.mem_append_left _ hr
    have hid' : id ∈ if url ≠ recordUrl then record.id :: prior.ambiguous else prior.ambiguous :=
      hid
    split_ifs at hid' with hne
    · rcases List.mem_cons.mp hid' with rfl | hmem
      · -- the first record of the id stands against the new one
        obtain ⟨before, after, hsplit⟩ := List.append_of_mem hexisting
        obtain ⟨old, rest, hvisited, -⟩ := h.ordered before _ after hsplit
        refine ⟨existing, ?_, record, by simp, h.own_id _ hexisting, rfl, ?_⟩
        · rw [hvisited]
          simp
        · rw [hurl, hrecord]
          simpa using hne
      · exact hold hmem
    · exact hold hid'
  ordered before entry after hsplit := by
    obtain ⟨old, rest, hvisited, hids⟩ := h.ordered before entry after hsplit
    exact ⟨old, rest ++ [record], by simp [hvisited], hids⟩

theorem PriorSources.Collects.add_new {recordUrl : String} (h : prior.Collects u visited)
    (hnew : record.id ∉ prior.byId.map Prod.fst)
    (hrecord : normalizeUrl u record.url = some recordUrl) :
    PriorSources.Collects u (visited ++ [record])
      { byId := prior.byId ++ [(record.id, record)]
        ambiguous := prior.ambiguous
        maxId := max prior.maxId record.id } where
  le_max r hr := by
    rcases List.mem_append.mp hr with hold | hlast
    · exact Nat.le_trans (h.le_max r hold) (Nat.le_max_left _ _)
    · rw [List.mem_singleton.mp hlast]
      exact Nat.le_max_right _ _
  defined r hr := by
    rcases List.mem_append.mp hr with hold | hlast
    · exact h.defined r hold
    · rw [List.mem_singleton.mp hlast, hrecord]
      rfl
  covered r hr := by
    rcases List.mem_append.mp hr with hold | hlast
    · obtain ⟨first, hfirst, heq⟩ := h.covered r hold
      exact ⟨first, List.mem_append_left _ hfirst, heq⟩
    · rw [List.mem_singleton.mp hlast]
      exact ⟨record, by simp, fun _ => rfl⟩
  own_id entry hentry := by
    rcases List.mem_append.mp hentry with hold | hlast
    · exact h.own_id entry hold
    · rw [List.mem_singleton.mp hlast]
  nodup := by
    rw [List.map_append, List.map_singleton]
    refine List.nodup_append'.mpr ⟨h.nodup, List.nodup_singleton _, ?_⟩
    intro id hid hlast
    rw [List.mem_singleton.mp hlast] at hid
    exact hnew hid
  ambiguous id hid := (h.ambiguous id hid).mono fun r hr => List.mem_append_left _ hr
  ordered before entry after hsplit := by
    rcases List.append_eq_append_iff.mp hsplit with ⟨middle, rfl, hrest⟩ | ⟨middle, hold, hrest⟩
    · cases middle with
      | nil =>
        obtain ⟨rfl, -⟩ := List.cons.inj hrest
        refine ⟨visited, [], rfl, fun r hr => ?_⟩
        obtain ⟨first, hfirst, -⟩ := h.covered r hr
        simpa using ⟨first, hfirst⟩
      | cons => simp at hrest
    · cases middle with
      | nil =>
        obtain ⟨rfl, -⟩ := List.cons.inj hrest
        refine ⟨visited, [], rfl, fun r hr => ?_⟩
        obtain ⟨first, hfirst, -⟩ := h.covered r hr
        rw [List.append_nil] at hold
        rw [← hold]
        exact List.mem_map_of_mem hfirst
      | cons other middle =>
        obtain ⟨rfl, hafter⟩ := List.cons.inj hrest
        obtain ⟨old, rest, hvisited, hids⟩ := h.ordered before entry middle hold
        exact ⟨old, rest ++ [record], by simp [hvisited], hids⟩

theorem PriorSources.Collects.step (h : prior.Collects u visited)
    (hadd : addPrior u prior item = some prior') :
    prior'.Collects u (visited ++ (recordFromMetadata item).toList) := by
  cases hrecord : recordFromMetadata item with
  | none =>
    rw [addPrior, hrecord] at hadd
    cases hadd
    simpa using h
  | some =>
    obtain ⟨recordUrl, hurl, hcase⟩ := addPrior_eq_some hrecord hadd
    rcases hcase with ⟨existing, url, hlookup, hexisting, rfl⟩ | ⟨hlookup, rfl⟩
    · exact h.add_known ((List.lookup_eq_some_iff_mem h.nodup).mp hlookup) hexisting hurl
    · exact h.add_new (List.lookup_eq_none_iff_notMem.mp hlookup) hurl

theorem collects_foldlM {items : List Dict} (h : prior.Collects u visited)
    (hfold : items.foldlM (addPrior u) prior = some prior') :
    prior'.Collects u (visited ++ records items) := by
  induction items generalizing prior visited with
  | nil =>
    cases hfold
    simpa [records] using h
  | cons item items ih =>
    rw [List.foldlM_cons] at hfold
    obtain ⟨next, hnext, hrest⟩ := Option.bind_eq_some_iff.mp hfold
    rw [records_cons, ← List.append_assoc]
    exact ih (h.step hnext) hrest

/-- The ids that were marked are the ambiguous ones. -/
theorem PriorSources.Collects.mem_ambiguous_iff (h : prior.Collects u visited) {id : ℕ} :
    id ∈ prior.ambiguous ↔ Ambiguous u visited id := by
  refine ⟨h.ambiguous id, fun ⟨r, hr, r', hr', hid, hid', hne⟩ => ?_⟩
  by_contra hclear
  obtain ⟨first, hfirst, heq⟩ := h.covered r hr
  obtain ⟨first', hfirst', heq'⟩ := h.covered r' hr'
  have hlookup : prior.byId.lookup id = some first :=
    (List.lookup_eq_some_iff_mem h.nodup).mpr (hid ▸ hfirst)
  have hlookup' : prior.byId.lookup id = some first' :=
    (List.lookup_eq_some_iff_mem h.nodup).mpr (hid' ▸ hfirst')
  obtain rfl : first = first' := Option.eq_some_unique hlookup hlookup'
  exact hne ((heq (hid ▸ hclear)).symm.trans (heq' (hid' ▸ hclear)))

namespace SourceRegistry

variable {sources : List SourceRecord} {registry : SourceRegistry} {key : String}
  {p : SourceRecord}

/-- The registry knows the sources it was restored from. -/
structure KnowsPrior (u : UnicodeData) (sources : List SourceRecord) (registry : SourceRegistry) :
    Prop where
  lt_next : ∀ r ∈ sources, r.id < registry.nextId
  entry : ∀ entry ∈ registry.priorById,
    entry.2 ∈ sources ∧ entry.2.id = entry.1 ∧ ¬Ambiguous u sources entry.1
  covered : ∀ r ∈ sources, ¬Ambiguous u sources r.id →
    ∃ first, (r.id, first) ∈ registry.priorById ∧ normalizeUrl u first.url = normalizeUrl u r.url
  /-- A URL is found under the earliest id it has. -/
  earliest : ∀ key p, registry.priorByUrl u key = some p →
    ∃ old rest, sources = old ++ p :: rest ∧
      ∀ r ∈ old, normalizeUrl u r.url = some key → Ambiguous u sources r.id

theorem KnowsPrior.of_priorByUrl (h : KnowsPrior u sources registry)
    (hp : registry.priorByUrl u key = some p) :
    p ∈ sources ∧ normalizeUrl u p.url = some key ∧ ¬Ambiguous u sources p.id := by
  have hmem := List.mem_of_find?_eq_some hp
  have hurl := List.find?_some hp
  obtain ⟨entry, hentry, rfl⟩ := List.mem_map.mp hmem
  obtain ⟨hsource, hid, hclear⟩ := h.entry entry hentry
  exact ⟨hsource, of_decide_eq_true hurl, hid ▸ hclear⟩

/-- A URL that is not found has ambiguous ids only. -/
theorem KnowsPrior.ambiguous_of_priorByUrl (h : KnowsPrior u sources registry)
    (hnone : registry.priorByUrl u key = none) {r : SourceRecord} (hr : r ∈ sources)
    (hurl : normalizeUrl u r.url = some key) : Ambiguous u sources r.id := by
  by_contra hclear
  obtain ⟨first, hfirst, heq⟩ := h.covered r hr hclear
  have hnot := List.find?_eq_none.mp hnone first (List.mem_map.mpr ⟨_, hfirst, rfl⟩)
  rw [heq, hurl] at hnot
  simp at hnot

/-- **Restoring.** A restored registry knows its sources. -/
theorem restore_knowsPrior {items : List Dict} (h : restore u items = some registry) :
    registry.byUrl = [] ∧ KnowsPrior u (records items) registry := by
  simp only [restore, Option.bind_eq_bind, Option.bind_eq_some_iff, Option.some.injEq] at h
  obtain ⟨collected, hfold, rfl⟩ := h
  have hinit : PriorSources.Collects u [] ⟨[], [], 0⟩ :=
    ⟨nofun, nofun, nofun, nofun, List.nodup_nil, nofun, fun before entry after hsplit => by
      simp at hsplit⟩
  have hcollects : collected.Collects u (records items) := by
    simpa using collects_foldlM hinit hfold
  refine ⟨rfl, ⟨fun r hr => ?_, fun entry hentry => ?_, fun r hr hclear => ?_,
    fun key p hp => ?_⟩⟩
  · exact Nat.lt_succ_of_le (hcollects.le_max r hr)
  · obtain ⟨hmem, hclear⟩ := List.mem_filter.mp hentry
    obtain ⟨before, after, hsplit⟩ := List.append_of_mem hmem
    obtain ⟨old, rest, hvisited, -⟩ := hcollects.ordered before entry after hsplit
    refine ⟨by simp [hvisited], hcollects.own_id entry hmem, fun hamb => ?_⟩
    exact of_decide_eq_true hclear (hcollects.mem_ambiguous_iff.mpr hamb)
  · obtain ⟨first, hfirst, heq⟩ := hcollects.covered r hr
    have hnot : r.id ∉ collected.ambiguous := fun hmem =>
      hclear (hcollects.mem_ambiguous_iff.mp hmem)
    exact ⟨first, List.mem_filter.mpr ⟨hfirst, decide_eq_true hnot⟩, heq hnot⟩
  · simp only [priorByUrl, List.find?_map, List.find?_filter, Option.map_eq_some_iff] at hp
    obtain ⟨entry, hfind, rfl⟩ := hp
    obtain ⟨-, before, after, hsplit, hbefore⟩ := List.find?_eq_some_iff_append.mp hfind
    obtain ⟨old, rest, hvisited, hids⟩ := hcollects.ordered before entry after hsplit
    refine ⟨old, rest, hvisited, fun r hr hurl => ?_⟩
    by_contra hclear
    -- the entry of the record's id stands before and would have been found
    have hmarked : r.id ∉ collected.ambiguous := fun hmem =>
      hclear (hcollects.mem_ambiguous_iff.mp hmem)
    obtain ⟨other, hother, hid⟩ := List.mem_map.mp (hids r hr)
    obtain ⟨first, hfirst, heq⟩ := hcollects.covered r (by simp [hvisited, hr])
    have hsame : other = (r.id, first) := by
      have hin : other ∈ collected.byId := by
        rw [hsplit]
        exact List.mem_append_left _ hother
      exact List.inj_on_of_nodup_map hcollects.nodup hin hfirst hid
    have hnot := hbefore other hother
    rw [hsame] at hnot
    simp [hmarked, heq hmarked, hurl] at hnot

/-! ### Registering -/

/-- What every registry of a run satisfies, whatever has been registered. -/
structure Sound (u : UnicodeData) (sources : List SourceRecord) (registry : SourceRegistry) : Prop
    extends KnowsPrior u sources registry where
  keyed : ∀ e ∈ registry.byUrl, normalizeUrl u e.2.url = some e.1
  nodup : (registry.byUrl.map Prod.fst).Nodup
  id_lt_next : ∀ e ∈ registry.byUrl, e.2.id < registry.nextId
  known : ∀ e ∈ registry.byUrl, ∀ p, registry.priorByUrl u e.1 = some p → e.2.id = p.id
  fresh : ∀ e ∈ registry.byUrl, registry.priorByUrl u e.1 = none → ∀ r ∈ sources, r.id < e.2.id
  injective : ∀ e ∈ registry.byUrl, ∀ e' ∈ registry.byUrl, e.2.id = e'.2.id → e.1 = e'.1

theorem restore_sound {items : List Dict} (h : restore u items = some registry) :
    Sound u (records items) registry := by
  obtain ⟨hempty, hprior⟩ := restore_knowsPrior h
  refine ⟨hprior, ?_, ?_, ?_, ?_, ?_, ?_⟩ <;> simp [hempty]

@[simp] theorem upgrade_id (record : SourceRecord) (extract : Option ExtractResult)
    (maxSourceChars : ℕ) : (upgrade record extract maxSourceChars).id = record.id := by
  unfold upgrade
  split
  · rfl
  · split_ifs <;> rfl

@[simp] theorem upgrade_url (record : SourceRecord) (extract : Option ExtractResult)
    (maxSourceChars : ℕ) : (upgrade record extract maxSourceChars).url = record.url := by
  unfold upgrade
  split
  · rfl
  · split_ifs <;> rfl

variable {extracts : List (String × ExtractResult)} {maxSourceChars : ℕ} {result : SearchResult}

/-- A known URL changes the content of its record only. -/
theorem Sound.upgrade (h : Sound u sources registry) (extract : Option ExtractResult) :
    Sound u sources { registry with
      byUrl := registry.byUrl.map fun entry =>
        if entry.1 = key then (key, SourceRegistry.upgrade entry.2 extract maxSourceChars)
        else entry } := by
  let change (entry : String × SourceRecord) : String × SourceRecord :=
    if entry.1 = key then (key, SourceRegistry.upgrade entry.2 extract maxSourceChars) else entry
  have hfst (entry : String × SourceRecord) : (change entry).1 = entry.1 := by
    by_cases hkey : entry.1 = key <;> simp [change, hkey]
  have hid (entry : String × SourceRecord) : (change entry).2.id = entry.2.id := by
    by_cases hkey : entry.1 = key <;> simp [change, hkey]
  have hurl (entry : String × SourceRecord) : (change entry).2.url = entry.2.url := by
    by_cases hkey : entry.1 = key <;> simp [change, hkey]
  have hold {e : String × SourceRecord} (he : e ∈ registry.byUrl.map change) :
      ∃ entry ∈ registry.byUrl, e.1 = entry.1 ∧ e.2.id = entry.2.id ∧ e.2.url = entry.2.url := by
    obtain ⟨entry, hentry, rfl⟩ := List.mem_map.mp he
    exact ⟨entry, hentry, hfst entry, hid entry, hurl entry⟩
  refine ⟨⟨h.lt_next, h.entry, h.covered, h.earliest⟩, ?_, ?_, ?_, ?_, ?_, ?_⟩
  · intro e he
    obtain ⟨entry, hentry, hkey, -, hurl⟩ := hold he
    rw [hurl, hkey]
    exact h.keyed entry hentry
  · show ((registry.byUrl.map change).map Prod.fst).Nodup
    rw [List.map_map, show Prod.fst ∘ change = Prod.fst from funext hfst]
    exact h.nodup
  · intro e he
    obtain ⟨entry, hentry, -, hid, -⟩ := hold he
    rw [hid]
    exact h.id_lt_next entry hentry
  · intro e he p hp
    obtain ⟨entry, hentry, hkey, hid, -⟩ := hold he
    rw [hid]
    exact h.known entry hentry p (hkey ▸ hp)
  · intro e he hnone r hr
    obtain ⟨entry, hentry, hkey, hid, -⟩ := hold he
    rw [hid]
    exact h.fresh entry hentry (hkey ▸ hnone) r hr
  · intro e he e' he' heq
    obtain ⟨entry, hentry, hkey, hid, -⟩ := hold he
    obtain ⟨entry', hentry', hkey', hid', -⟩ := hold he'
    rw [hkey, hkey']
    exact h.injective entry hentry entry' hentry' (hid.symm.trans (heq.trans hid'))

/-- A new URL with the earliest id it has, or with the next one. -/
theorem Sound.append {record : SourceRecord} {next : ℕ} (h : Sound u sources registry)
    (hkey : normalizeUrl u record.url = some key) (hnew : key ∉ registry.byUrl.map Prod.fst)
    (hnext : registry.nextId ≤ next) (hlt : record.id < next)
    (hknown : ∀ p, registry.priorByUrl u key = some p → record.id = p.id)
    (hfresh : registry.priorByUrl u key = none → registry.nextId ≤ record.id) :
    Sound u sources
      { registry with byUrl := registry.byUrl ++ [(key, record)], nextId := next } := by
  -- an id that both have would be a prior id of two URLs
  have hother : ∀ e ∈ registry.byUrl, e.2.id ≠ record.id := by
    intro e he heq
    have hne : e.1 ≠ key := fun hsame => hnew (hsame ▸ List.mem_map_of_mem he)
    cases hprior : registry.priorByUrl u key with
    | none =>
      have hge := hfresh hprior
      have hlt := h.id_lt_next e he
      omega
    | some p =>
      obtain ⟨hp, hpurl, hclear⟩ := h.of_priorByUrl hprior
      have hpid := hknown p hprior
      cases hprior' : registry.priorByUrl u e.1 with
      | none =>
        have hlt := h.fresh e he hprior' p hp
        omega
      | some p' =>
        obtain ⟨hp', hpurl', -⟩ := h.of_priorByUrl hprior'
        have hpid' := h.known e he p' hprior'
        refine hclear ⟨p, hp, p', hp', rfl, by omega, ?_⟩
        rw [hpurl, hpurl']
        simpa using hne.symm
  refine ⟨⟨fun r hr => (h.lt_next r hr).trans_le hnext, h.entry, h.covered, h.earliest⟩,
    ?_, ?_, ?_, ?_, ?_, ?_⟩
  · intro e he
    rcases List.mem_append.mp he with hold | hlast
    · exact h.keyed e hold
    · rw [List.mem_singleton.mp hlast]
      exact hkey
  · rw [List.map_append, List.map_singleton]
    refine List.nodup_append'.mpr ⟨h.nodup, List.nodup_singleton _, ?_⟩
    intro k hk hlast
    rw [List.mem_singleton.mp hlast] at hk
    exact hnew hk
  · intro e he
    rcases List.mem_append.mp he with hold | hlast
    · exact (h.id_lt_next e hold).trans_le hnext
    · rw [List.mem_singleton.mp hlast]
      exact hlt
  · intro e he p hp
    rcases List.mem_append.mp he with hold | hlast
    · exact h.known e hold p hp
    · rw [List.mem_singleton.mp hlast] at hp ⊢
      exact hknown p hp
  · intro e he hnone r hr
    rcases List.mem_append.mp he with hold | hlast
    · exact h.fresh e hold hnone r hr
    · rw [List.mem_singleton.mp hlast] at hnone ⊢
      exact (h.lt_next r hr).trans_le (hfresh hnone)
  · intro e he e' he' heq
    rcases List.mem_append.mp he with hold | hlast <;>
      rcases List.mem_append.mp he' with hold' | hlast'
    · exact h.injective e hold e' hold' heq
    · rw [List.mem_singleton.mp hlast'] at heq
      exact absurd heq (hother e hold)
    · rw [List.mem_singleton.mp hlast] at heq
      exact absurd heq.symm (hother e' hold')
    · rw [List.mem_singleton.mp hlast, List.mem_singleton.mp hlast']

/-- **Step.** One result keeps a registry sound. -/
theorem Sound.registerResult (h : Sound u sources registry)
    (hkey : normalizeUrl u result.url = some key) :
    Sound u sources (registry.registerResult u extracts maxSourceChars result key) := by
  unfold SourceRegistry.registerResult
  cases hlookup : registry.byUrl.lookup key with
  | some => exact h.upgrade _
  | none =>
    have hnew := List.lookup_eq_none_iff_notMem.mp hlookup
    cases hprior : registry.priorByUrl u key with
    | some p =>
      have hp := (h.of_priorByUrl hprior).1
      refine h.append hkey hnew le_rfl (h.lt_next p hp) (fun q hq => ?_) fun hnone => ?_
      · rw [Option.eq_some_unique hprior hq]
        rfl
      · rw [hprior] at hnone
        cases hnone
    | none =>
      refine h.append hkey hnew (Nat.le_succ _) (Nat.lt_succ_self _) (fun q hq => ?_)
        fun _ => le_rfl
      rw [hprior] at hq
      cases hq

theorem Sound.registerResults (results : List SearchResult) (h : Sound u sources registry) :
    Sound u sources (SourceRegistry.registerResults u extracts maxSourceChars registry
      results) := by
  induction results generalizing registry with
  | nil => exact h
  | cons result results ih =>
    rw [SourceRegistry.registerResults]
    cases hkey : normalizeUrl u result.url with
    | none => exact h
    | some => exact ih (h.registerResult hkey)

/-- **Registering.** Results in any order keep a registry sound. -/
theorem Sound.register (results : List SearchResult) (extracts : List ExtractResult)
    (maxSourceChars : ℕ) (h : Sound u sources registry) :
    Sound u sources (registry.register u results extracts maxSourceChars) := by
  unfold SourceRegistry.register
  split
  · exact h
  · exact h.registerResults results

/-! ### What the ids say -/

/-- An id of the registry names no other URL in the sources. -/
theorem Sound.consistent (h : Sound u sources registry) {e : String × SourceRecord}
    (he : e ∈ registry.byUrl) {r : SourceRecord} (hr : r ∈ sources) (hid : r.id = e.2.id) :
    normalizeUrl u r.url = some e.1 := by
  cases hprior : registry.priorByUrl u e.1 with
  | none =>
    have hlt := h.fresh e he hprior r hr
    omega
  | some p =>
    obtain ⟨hp, hpurl, hclear⟩ := h.of_priorByUrl hprior
    by_contra hne
    refine hclear ⟨r, hr, p, hp, hid.trans (h.known e he p hprior), rfl, ?_⟩
    rw [hpurl]
    exact hne

/-- An ambiguous id is not handed out. -/
theorem Sound.not_ambiguous (h : Sound u sources registry) {e : String × SourceRecord}
    (he : e ∈ registry.byUrl) : ¬Ambiguous u sources e.2.id := by
  rintro ⟨r, hr, r', hr', hid, hid', hne⟩
  exact hne ((h.consistent he hr hid).trans (h.consistent he hr' hid').symm)

end SourceRegistry

end IChat.Search
