import IChat.Search.ConversationSources

/-!
# The ids of a conversation

The model cites a source by its id, over all runs of a conversation, so an id must not come to
denote another page. A registry is restored from what the earlier answers recorded, which may be
anything (`Issued` is what its ids satisfy then, after any calls), and what a conversation records
itself never makes an id ambiguous.
-/

namespace IChat.Search

open Url StepSystem

variable {u : UnicodeData} {maxSourceChars : ℕ}

/-- The record that a URL is known by: the first one with the URL whose id has one URL only. -/
def KnownBy (u : UnicodeData) (recorded : List SourceRecord) (key : String) (p : SourceRecord) :
    Prop :=
  ∃ old rest, recorded = old ++ p :: rest ∧ normalizeUrl u p.url = some key ∧
    ¬Ambiguous u recorded p.id ∧
    ∀ r ∈ old, normalizeUrl u r.url = some key → Ambiguous u recorded r.id

/-- What the ids of a registry satisfy that was restored from some records. -/
structure Issued (u : UnicodeData) (recorded : List SourceRecord) (registry : SourceRegistry) :
    Prop where
  /-- An id denotes one URL, and a URL has one id. -/
  one_id : ∀ e ∈ registry.byUrl, ∀ e' ∈ registry.byUrl, e.2.id = e'.2.id ↔ e.1 = e'.1
  url : ∀ e ∈ registry.byUrl, normalizeUrl u e.2.url = some e.1
  /-- Nowhere in the records does an id that is handed out denote another URL. -/
  consistent : ∀ e ∈ registry.byUrl, ∀ r ∈ recorded, r.id = e.2.id →
    normalizeUrl u r.url = some e.1
  unambiguous : ∀ e ∈ registry.byUrl, ¬Ambiguous u recorded e.2.id
  /-- A known URL keeps its id, and another gets one that was never used. -/
  kept : ∀ e ∈ registry.byUrl, (∃ p, KnownBy u recorded e.1 p ∧ e.2.id = p.id) ∨
    (∀ r ∈ recorded, normalizeUrl u r.url = some e.1 → Ambiguous u recorded r.id) ∧
      ∀ r ∈ recorded, r.id < e.2.id

theorem SourceRegistry.Sound.issued {recorded : List SourceRecord} {registry : SourceRegistry}
    (h : registry.Sound u recorded) : Issued u recorded registry where
  one_id e he e' he' := by
    refine ⟨h.injective e he e' he', fun heq => ?_⟩
    rw [List.inj_on_of_nodup_map h.nodup he he' heq]
  url := h.keyed
  consistent _ he _ hr hid := h.consistent he hr hid
  unambiguous _ he := h.not_ambiguous he
  kept e he := by
    cases hprior : registry.priorByUrl u e.1 with
    | none =>
      exact .inr ⟨fun r hr hurl => h.ambiguous_of_priorByUrl hprior hr hurl, h.fresh e he hprior⟩
    | some p =>
      obtain ⟨-, hurl, hclear⟩ := h.of_priorByUrl hprior
      obtain ⟨old, rest, heq, hold⟩ := h.earliest e.1 p hprior
      exact .inl ⟨p, ⟨old, rest, heq, hurl, hclear, hold⟩, h.known e he p hprior⟩

/-- **Citation ids.** Whatever the earlier answers recorded, and whatever the searches of a run find
in whatever order, the ids of the run are issued as they should; and in a conversation that begins
empty, whatever is regenerated or archived, an id denotes one URL and a URL has one id. -/
theorem citationIds_unique :
    (∀ items registry calls, SourceRegistry.restore u items = some registry →
      Issued u (records items) (registry.registerAll u maxSourceChars calls)) ∧
    ∀ steps messages, run (conversationStep u maxSourceChars) [] steps = some messages →
      ∀ r ∈ messages.flatten, ∀ r' ∈ messages.flatten,
        r.id = r'.id ↔ normalizeUrl u r.url = normalizeUrl u r'.url := by
  refine ⟨fun items registry calls hrestore => ?_, fun steps messages hrun => ?_⟩
  · have hsound := SourceRegistry.restore_sound hrestore
    have hafter : (registry.registerAll u maxSourceChars calls).Sound u (records items) := by
      unfold SourceRegistry.registerAll
      refine List.foldlRecOn (motive := fun registry : SourceRegistry =>
        registry.Sound u (records items)) _ _ hsound fun registry hregistry call _ => ?_
      exact hregistry.register _ _ _
    exact hafter.issued
  · exact (numbered_of_run hrun).one_id

end IChat.Search
