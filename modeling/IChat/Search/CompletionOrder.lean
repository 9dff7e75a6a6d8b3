import IChat.General.Lists
import IChat.Search.SourceRegistry

/-!
# Concurrent searches

Concurrent searches call `register` in the order in which they complete. Of all that a call carries,
the stored content of a URL depends on the call's first result with the URL and on its extract of
it (`contribution`), and a call that follows another adds to the content alone (`absorb`).

`content_settled_iff`: when one call carries extracted page text for a URL, the text is what every
order ends with, under one title, exactly if the URL was registered before, or no call registers it
with a blank extract and the title does not depend on the results.
-/

namespace IChat.Search

open Url

/-- The stored content of a source. -/
structure Content where
  snippet : String
  title : String
  extracted : Bool
  deriving DecidableEq

def SourceRecord.content (record : SourceRecord) : Content :=
  ⟨record.snippet, record.title, record.extracted⟩

/-- The arguments of a call of `register`. -/
structure SearchCall where
  results : List SearchResult
  extracts : List ExtractResult
  deriving DecidableEq

/-- The extract holds page text. -/
def ExtractResult.HasText (extract : ExtractResult) : Prop := Text.strip extract.content.toList ≠ []

instance (extract : ExtractResult) : Decidable extract.HasText :=
  inferInstanceAs (Decidable (_ ≠ _))

section

variable (u : UnicodeData) (maxSourceChars : ℕ)

/-- The calls of `register`, in the order of their completion. -/
def SourceRegistry.registerAll (registry : SourceRegistry) (calls : List SearchCall) :
    SourceRegistry :=
  calls.foldl (fun registry call =>
    registry.register u call.results call.extracts maxSourceChars) registry

/-- The content that a registry holds for a URL. -/
def SourceRegistry.content? (registry : SourceRegistry) (key : String) : Option Content :=
  (registry.byUrl.lookup key).map SourceRecord.content

/-- What a call says of a URL: its first result with it, if no URL before that is refused, and the
last extract of it. -/
def contribution (key : String) (call : SearchCall) :
    Option (SearchResult × Option ExtractResult) :=
  match call.extracts.mapM fun extract =>
      (normalizeUrl u extract.url).map fun key => (key, extract) with
  | none => none
  | some extracts =>
    ((call.results.takeWhile fun result => (normalizeUrl u result.url).isSome).find? fun result =>
      normalizeUrl u result.url = some key).map fun result => (result, extracts.reverse.lookup key)

end

/-- The title that a result gives a source. -/
def SearchResult.titleOrUrl (result : SearchResult) : String :=
  if result.title = "" then result.url else result.title

/-- The title that an extract gives a source with another title. -/
def ExtractResult.titleOr (extract : ExtractResult) (title : String) : String :=
  match extract.title with
  | none | some "" => title
  | some title => title

/-- What a call adds to the content of a URL. -/
def absorb (maxSourceChars : ℕ) :
    Option Content → SearchResult × Option ExtractResult → Content
  | none, (result, none) =>
    ⟨squeeze result.snippet.toList maxSourceChars, result.titleOrUrl, false⟩
  | none, (result, some extract) =>
    ⟨squeeze extract.content.toList maxSourceChars, extract.titleOr result.titleOrUrl, true⟩
  | some content, (_, none) => content
  | some content, (_, some extract) =>
    if ¬extract.HasText ∨ content.extracted then content
    else ⟨squeeze extract.content.toList maxSourceChars, extract.titleOr content.title, true⟩

/-- What some calls add, one after the other. -/
def absorbAll (maxSourceChars : ℕ) (start : Option Content)
    (calls : List (SearchResult × Option ExtractResult)) : Option Content :=
  calls.foldl (fun content call => some (absorb maxSourceChars content call)) start

/-! ### Registering -/

variable {u : UnicodeData} {maxSourceChars : ℕ}

/-- An upgrade changes the content as a later call does. -/
theorem content_upgrade (record : SourceRecord) (result : SearchResult)
    (extract : Option ExtractResult) :
    (SourceRegistry.upgrade record extract maxSourceChars).content =
      absorb maxSourceChars (some record.content) (result, extract) := by
  cases extract with
  | none => rfl
  | some extract =>
    have hbranch : (¬extract.HasText ∨ record.content.extracted = true) ↔
        (Text.strip extract.content.toList = [] ∨ record.extracted = true) :=
      or_congr not_not Iff.rfl
    rw [SourceRegistry.upgrade, absorb]
    by_cases hkeep : Text.strip extract.content.toList = [] ∨ record.extracted = true
    · rw [if_pos hkeep, if_pos (hbranch.mpr hkeep)]
    · rw [if_neg hkeep, if_neg (mt hbranch.mp hkeep)]
      rfl

/-- A new source has the content that a first call gives. -/
theorem content_newRecord (id : ℕ) (result : SearchResult) (extract : Option ExtractResult) :
    (SourceRegistry.newRecord id result extract maxSourceChars).content =
      absorb maxSourceChars none (result, extract) := by
  cases extract with
  | none => rfl
  | some extract =>
    have htitle : (SourceRegistry.newRecord id result (some extract) maxSourceChars).title =
        extract.titleOr result.titleOrUrl := by
      simp only [SourceRegistry.newRecord, ExtractResult.titleOr, SearchResult.titleOrUrl,
        Option.bind_some]
      cases htitle : extract.title with
      | none => rfl
      | some title =>
        by_cases hempty : title = ""
        · subst hempty
          rfl
        · simp [hempty]
    rw [SourceRecord.content, htitle]
    rfl

/-- A call changes nothing that it has settled itself. -/
theorem absorb_absorb (start : Option Content) (result other : SearchResult)
    (extract : Option ExtractResult) :
    absorb maxSourceChars (some (absorb maxSourceChars start (result, extract))) (other, extract) =
      absorb maxSourceChars start (result, extract) := by
  cases extract with
  | none => rfl
  | some extract =>
    cases start with
    | none => exact if_pos (Or.inr rfl)
    | some content =>
      by_cases hkeep : ¬extract.HasText ∨ content.extracted = true
      · have hsame : absorb maxSourceChars (some content) (result, some extract) = content :=
          if_pos hkeep
        rw [hsame]
        exact if_pos hkeep
      · have hnew : (absorb maxSourceChars (some content)
          (result, some extract)).extracted = true := by
          rw [absorb, if_neg hkeep]
        exact if_pos (Or.inr hnew)

/-- What is read of the records comes from the results that are registered: `take` says what a
result makes of what was there before. A call adds nothing to what it has settled itself. -/
structure Reads {α : Type} (maxSourceChars : ℕ) (read : SourceRecord → α)
    (take : Option α → SearchResult × Option ExtractResult → α) : Prop where
  upgrade : ∀ record result extract,
    read (SourceRegistry.upgrade record extract maxSourceChars) =
      take (some (read record)) (result, extract)
  new : ∀ id result extract,
    read (SourceRegistry.newRecord id result extract maxSourceChars) = take none (result, extract)
  again : ∀ start result other extract,
    take (some (take start (result, extract))) (other, extract) = take start (result, extract)

section reads

variable {α : Type} {read : SourceRecord → α}
variable {take : Option α → SearchResult × Option ExtractResult → α}

/-- A result changes what is read of its own URL. -/
theorem Reads.registerResult (h : Reads maxSourceChars read take) (registry : SourceRegistry)
    (extracts : List (String × ExtractResult)) (result : SearchResult) (key other : String) :
    ((registry.registerResult u extracts maxSourceChars result key).byUrl.lookup other).map read =
      if other = key then
        some (take ((registry.byUrl.lookup key).map read) (result, extracts.reverse.lookup key))
      else (registry.byUrl.lookup other).map read := by
  have hadd : ∀ id, registry.byUrl.lookup key = none →
      ((registry.byUrl ++ [(key, SourceRegistry.newRecord id result (extracts.reverse.lookup key)
        maxSourceChars)]).lookup other).map read =
        if other = key then
          some (take ((registry.byUrl.lookup key).map read) (result, extracts.reverse.lookup key))
        else (registry.byUrl.lookup other).map read := by
    intro id hnone
    rw [List.lookup_append, hnone]
    by_cases hother : other = key
    · rw [if_pos hother, hother, hnone, Option.none_or, List.lookup_cons_self, Option.map_some,
        h.new id result]
      rfl
    · have hbeq : (other == key) = false := by simpa using hother
      rw [if_neg hother, List.lookup_cons, hbeq, List.lookup_nil, Option.or_none]
  rw [SourceRegistry.registerResult]
  cases hlookup : registry.byUrl.lookup key with
  | some record =>
    dsimp only
    have hmap := List.lookup_map_update registry.byUrl key other fun record =>
      SourceRegistry.upgrade record (extracts.reverse.lookup key) maxSourceChars
    rw [hmap, hlookup]
    by_cases hother : other = key
    · rw [if_pos hother, if_pos hother, Option.map_some, Option.map_some, Option.map_some,
        h.upgrade record result]
    · rw [if_neg hother, if_neg hother]
  | none =>
    dsimp only
    rw [hlookup] at hadd
    split
    · exact hadd _ rfl
    · exact hadd _ rfl

/-- The results of a call change what is read of a URL as the first of them with it does. -/
theorem Reads.registerResults (h : Reads maxSourceChars read take)
    (extracts : List (String × ExtractResult)) (key : String) (registry : SourceRegistry)
    (results : List SearchResult) :
    ((SourceRegistry.registerResults u extracts maxSourceChars registry results).byUrl.lookup
        key).map read =
      match (results.takeWhile fun result => (normalizeUrl u result.url).isSome).find? fun result =>
          normalizeUrl u result.url = some key with
      | none => (registry.byUrl.lookup key).map read
      | some result =>
        some (take ((registry.byUrl.lookup key).map read)
          (result, extracts.reverse.lookup key)) := by
  induction results generalizing registry with
  | nil => rfl
  | cons result results ih =>
    rw [SourceRegistry.registerResults]
    cases hurl : normalizeUrl u result.url with
    | none => simp [hurl]
    | some url =>
      have hsome : (normalizeUrl u result.url).isSome = true :=
        Option.isSome_iff_exists.mpr ⟨url, hurl⟩
      have htake : (result :: results).takeWhile
          (fun result => (normalizeUrl u result.url).isSome) =
            result :: results.takeWhile fun result => (normalizeUrl u result.url).isSome :=
        List.takeWhile_cons_of_pos hsome
      dsimp only
      rw [ih, h.registerResult, htake, List.find?_cons, hurl]
      by_cases hkey : url = key
      · subst hkey
        simp only [decide_true, if_true]
        split
        · rfl
        · rw [h.again]
      · have hne : ¬some url = some key := fun h => hkey (Option.some_inj.mp h)
        simp only [hne, decide_false, if_neg (Ne.symm hkey)]

/-- Calls change what is read of a URL by their contributions, one after the other. -/
theorem Reads.registerAll (h : Reads maxSourceChars read take) (registry : SourceRegistry)
    (calls : List SearchCall) (key : String) :
    ((registry.registerAll u maxSourceChars calls).byUrl.lookup key).map read =
      (calls.filterMap (contribution u key)).foldl (fun start call => some (take start call))
        ((registry.byUrl.lookup key).map read) := by
  induction calls generalizing registry with
  | nil => rfl
  | cons call calls ih =>
    have hcall : ((registry.register u call.results call.extracts maxSourceChars).byUrl.lookup
        key).map read = (contribution u key call).toList.foldl
          (fun start call => some (take start call)) ((registry.byUrl.lookup key).map read) := by
      rw [SourceRegistry.register, contribution]
      cases call.extracts.mapM fun extract =>
          (normalizeUrl u extract.url).map fun key => (key, extract) with
      | none => rfl
      | some extracts =>
        dsimp only
        rw [h.registerResults]
        split
        · rename_i hnone
          rw [hnone]
          rfl
        · rename_i hsome
          rw [hsome]
          rfl
    have hrest := ih (registry.register u call.results call.extracts maxSourceChars)
    rw [hcall] at hrest
    refine hrest.trans ?_
    rw [List.filterMap_cons]
    cases contribution u key call <;> rfl

end reads

theorem reads_content : Reads maxSourceChars SourceRecord.content (absorb maxSourceChars) where
  upgrade := content_upgrade
  new := content_newRecord
  again := absorb_absorb

/-- Calls change the content of a URL by their contributions, one after the other. -/
theorem content?_registerAll (registry : SourceRegistry) (calls : List SearchCall) (key : String) :
    (registry.registerAll u maxSourceChars calls).content? key =
      absorbAll maxSourceChars (registry.content? key) (calls.filterMap (contribution u key)) :=
  reads_content.registerAll registry calls key

/-! ### Orders -/

/-- Extracted content stays. -/
theorem absorbAll_of_extracted {content : Content} (h : content.extracted = true)
    (calls : List (SearchResult × Option ExtractResult)) :
    absorbAll maxSourceChars (some content) calls = some content := by
  induction calls with
  | nil => rfl
  | cons call calls ih =>
    have hstay : absorb maxSourceChars (some content) call = content := by
      obtain ⟨result, extract⟩ := call
      cases extract with
      | none => rfl
      | some => exact if_pos (Or.inr h)
    rw [absorbAll, List.foldl_cons, hstay]
    exact ih

/-- Content stays as long as no page text comes. -/
theorem absorbAll_of_no_text (content : Content)
    {calls : List (SearchResult × Option ExtractResult)}
    (h : ∀ result extract, (result, some extract) ∈ calls → ¬extract.HasText) :
    absorbAll maxSourceChars (some content) calls = some content := by
  induction calls with
  | nil => rfl
  | cons call calls ih =>
    have hstay : absorb maxSourceChars (some content) call = content := by
      obtain ⟨result, extract⟩ := call
      cases extract with
      | none => rfl
      | some extract => exact if_pos (Or.inl (h result extract List.mem_cons_self))
    rw [absorbAll, List.foldl_cons, hstay]
    exact ih fun result extract hmem => h result extract (List.mem_cons_of_mem call hmem)

/-- Page text replaces a search snippet. -/
theorem absorb_of_text {content : Content} {result : SearchResult} {extract : ExtractResult}
    (htext : extract.HasText) (hplain : content.extracted = false) :
    absorb maxSourceChars (some content) (result, some extract) =
      ⟨squeeze extract.content.toList maxSourceChars, extract.titleOr content.title, true⟩ := by
  refine if_neg fun h => ?_
  rcases h with hblank | hextracted
  · exact hblank htext
  · rw [hplain] at hextracted
    exact Bool.noConfusion hextracted

/-- The content after a call with page text, between calls without. -/
theorem absorbAll_text {start : Option Content}
    (hstart : ∀ content ∈ start, content.extracted = false)
    {before after : List (SearchResult × Option ExtractResult)} {result : SearchResult}
    {extract : ExtractResult} (htext : extract.HasText)
    (hbefore : ∀ r e, (r, some e) ∈ before → ¬e.HasText)
    (hfirst : start = none → ∀ r e, (r, some e) ∉ before) :
    absorbAll maxSourceChars start (before ++ (result, some extract) :: after) = some
      ⟨squeeze extract.content.toList maxSourceChars,
        extract.titleOr ((start.map Content.title).getD
          ((before.head?.map Prod.fst).getD result).titleOrUrl), true⟩ := by
  have hafter : ∀ content : Content, content.extracted = true →
      absorbAll maxSourceChars (some content) after = some content := fun content h =>
    absorbAll_of_extracted h after
  have hsplit : absorbAll maxSourceChars start (before ++ (result, some extract) :: after) =
      absorbAll maxSourceChars
        (some (absorb maxSourceChars (absorbAll maxSourceChars start before)
          (result, some extract))) after := by
    rw [absorbAll, List.foldl_append]
    rfl
  rw [hsplit]
  cases start with
  | some content =>
    rw [absorbAll_of_no_text content hbefore,
      absorb_of_text htext (hstart content (Option.mem_some_self content)), hafter _ rfl]
    rfl
  | none =>
    cases before with
    | nil => exact hafter _ rfl
    | cons call before =>
      obtain ⟨r, e⟩ := call
      cases e with
      | some e => exact absurd List.mem_cons_self (hfirst rfl r e)
      | none =>
        have hrest : absorbAll maxSourceChars none ((r, none) :: before) =
            some ⟨squeeze r.snippet.toList maxSourceChars, r.titleOrUrl, false⟩ :=
          absorbAll_of_no_text _ fun r e hmem => hbefore r e (List.mem_cons_of_mem _ hmem)
        rw [hrest, absorb_of_text htext rfl, hafter _ rfl]
        rfl

/-! ### Blank texts -/

/-- Page text leaves a snippet. -/
theorem squeeze_ne_empty {s : List Char} (h : Text.strip s ≠ []) (maxChars : ℕ) :
    squeeze s maxChars ≠ "" := by
  have hwords : Text.words s ≠ [] := by
    rw [ne_eq, Text.words_eq_nil_iff, ← Text.stripChars_eq_nil_iff]
    exact h
  have hcompact : [' '].intercalate (Text.words s) ≠ [] := by
    obtain ⟨word, words, hcons⟩ := List.exists_cons_of_ne_nil hwords
    have hword : word ≠ [] := by
      have hmem : word ∈ Text.words s := hcons ▸ List.mem_cons_self
      rw [Text.words, List.mem_filter] at hmem
      exact of_decide_eq_true hmem.2
    rw [hcons]
    cases words with
    | nil => simpa using hword
    | cons => simp [List.intercalate_cons_cons, hword]
  rw [squeeze]
  split
  · rw [ne_eq, String.ofList_eq_empty_iff]
    exact hcompact
  · rw [ne_eq, String.ofList_eq_empty_iff]
    exact List.append_ne_nil_of_right_ne_nil _ (List.cons_ne_nil _ _)

/-- A blank text leaves none. -/
theorem squeeze_of_blank {s : List Char} (h : Text.strip s = []) (maxChars : ℕ) :
    squeeze s maxChars = "" := by
  have hwords : Text.words s = [] := by
    rw [Text.words_eq_nil_iff, ← Text.stripChars_eq_nil_iff]
    exact h
  rw [squeeze, hwords]
  exact if_pos (Nat.zero_le maxChars)

/-! ### Titles -/

/-- The extract names the page. -/
def ExtractResult.HasTitle (extract : ExtractResult) : Prop := extract.title.getD "" ≠ ""

theorem ExtractResult.HasTitle.titleOr_eq {extract : ExtractResult} (h : extract.HasTitle)
    (title other : String) : extract.titleOr title = extract.titleOr other := by
  rw [ExtractResult.titleOr, ExtractResult.titleOr]
  cases htitle : extract.title with
  | none =>
    rw [HasTitle, htitle] at h
    exact absurd rfl h
  | some =>
    rw [HasTitle, htitle, Option.getD_some] at h
    simp

theorem ExtractResult.titleOr_of_not_hasTitle {extract : ExtractResult} (h : ¬extract.HasTitle)
    (title : String) : extract.titleOr title = title := by
  rw [HasTitle, not_not] at h
  rw [ExtractResult.titleOr]
  cases htitle : extract.title with
  | none => rfl
  | some =>
    rw [htitle, Option.getD_some] at h
    subst h
    rfl

/-! ### The stored content -/

section

variable {registry : SourceRegistry} {key : String} {real : SearchCall} {others : List SearchCall}
  {result : SearchResult} {extract : ExtractResult}

/-- The content when a call with page text comes between calls without. -/
theorem content?_of_text (hreal : contribution u key real = some (result, some extract))
    (htext : extract.HasText)
    (hstart : ∀ content ∈ registry.content? key, content.extracted = false)
    (maxSourceChars : ℕ) (before after : List SearchCall)
    (hbefore : ∀ call ∈ before, ∀ r e, contribution u key call = some (r, some e) → ¬e.HasText)
    (hfirst : registry.content? key = none →
      ∀ call ∈ before, ∀ r e, contribution u key call ≠ some (r, some e)) :
    (registry.registerAll u maxSourceChars (before ++ real :: after)).content? key = some
      ⟨squeeze extract.content.toList maxSourceChars,
        extract.titleOr (((registry.content? key).map Content.title).getD
          ((((before.filterMap (contribution u key)).head?).map Prod.fst).getD result).titleOrUrl),
        true⟩ := by
  rw [content?_registerAll, List.filterMap_append, List.filterMap_cons_some hreal]
  refine absorbAll_text hstart htext (fun r e hmem => ?_) fun hnone r e hmem => ?_
  · obtain ⟨call, hcall, heq⟩ := List.mem_filterMap.mp hmem
    exact hbefore call hcall r e heq
  · obtain ⟨call, hcall, heq⟩ := List.mem_filterMap.mp hmem
    exact hfirst hnone call hcall r e heq

/-- One call carries page text for a URL that has none yet, and the others carry search snippets or
blank extracts. Then every order of the calls ends with that text, under one title, exactly if the
URL was registered before, or else no other call registers it with a blank extract and the title
does not depend on which call comes first: the extract has one, or all calls give the same. -/
theorem content_settled_iff (registry : SourceRegistry) (key : String) (real : SearchCall)
    (others : List SearchCall) (result : SearchResult) (extract : ExtractResult)
    (hreal : contribution u key real = some (result, some extract)) (htext : extract.HasText)
    (hothers : ∀ call ∈ others, ∀ r e, contribution u key call = some (r, some e) → ¬e.HasText)
    (hstart : ∀ content ∈ registry.content? key, content.extracted = false) :
    (∃ title, ∀ order, order.Perm (real :: others) →
      (registry.registerAll u maxSourceChars order).content? key =
        some ⟨squeeze extract.content.toList maxSourceChars, title, true⟩) ↔
    (registry.content? key).isSome ∨
      (∀ call ∈ others, ∀ r e, contribution u key call ≠ some (r, some e)) ∧
      (extract.HasTitle ∨ ∀ call ∈ others, ∀ r e, contribution u key call = some (r, e) →
        r.titleOrUrl = result.titleOrUrl) := by
  constructor
  · rintro ⟨title, hall⟩
    cases hnew : registry.content? key with
    | some => exact Or.inl rfl
    | none =>
      right
      have hfirst : ∀ call ∈ others, (call :: real :: others.erase call).Perm (real :: others) := by
        intro call hcall
        exact (List.Perm.swap real call _).trans ((List.perm_cons_erase hcall).symm.cons real)
      have hplain : ∀ call ∈ others, ∀ r e, contribution u key call ≠ some (r, some e) := by
        intro call hcall r e heq
        have hcontent := hall _ (hfirst call hcall)
        -- a blank extract that comes first blocks the text
        rw [content?_registerAll, hnew, List.filterMap_cons_some heq] at hcontent
        have hstay : absorbAll maxSourceChars (some (absorb maxSourceChars none (r, some e)))
            ((real :: others.erase call).filterMap (contribution u key)) =
              some (absorb maxSourceChars none (r, some e)) := absorbAll_of_extracted rfl _
        have hblank := not_not.mp (hothers call hcall r e heq)
        have hsnippet := congrArg Content.snippet (Option.some_inj.mp (hstay.symm.trans hcontent))
        exact squeeze_ne_empty htext maxSourceChars
          (hsnippet.symm.trans (squeeze_of_blank hblank maxSourceChars))
      refine ⟨hplain, ?_⟩
      by_cases htitle : extract.HasTitle
      · exact Or.inl htitle
      · refine Or.inr fun call hcall r e heq => ?_
        have hnone : e = none := Option.eq_none_iff_forall_ne_some.mpr fun e' he =>
          hplain call hcall r e' (by rw [heq, he])
        have hlone := content?_of_text hreal htext hstart maxSourceChars [] others
          (fun call hmem => absurd hmem List.not_mem_nil)
          fun _ call hmem => absurd hmem List.not_mem_nil
        have hafter := content?_of_text hreal htext hstart maxSourceChars [call] (others.erase call)
          (fun other hmem r e hother =>
            hothers other (List.mem_singleton.mp hmem ▸ hcall) r e hother)
          fun _ other hmem => hplain other (List.mem_singleton.mp hmem ▸ hcall)
        rw [List.nil_append, hall _ (List.Perm.refl _), hnew] at hlone
        rw [List.singleton_append, hall _ (hfirst call hcall), hnew,
          List.filterMap_cons_some heq] at hafter
        have hsame := congrArg Content.title (Option.some_inj.mp (hafter.symm.trans hlone))
        rw [ExtractResult.titleOr_of_not_hasTitle htitle,
          ExtractResult.titleOr_of_not_hasTitle htitle] at hsame
        exact hsame
  · intro hcondition
    refine ⟨extract.titleOr (((registry.content? key).map Content.title).getD result.titleOrUrl),
      fun order horder => ?_⟩
    obtain ⟨before, after, rfl⟩ := List.append_of_mem (horder.mem_iff.mpr List.mem_cons_self)
    have hrest : (before ++ after).Perm others :=
      (List.perm_middle.symm.trans horder).cons_inv
    have hmem : ∀ call ∈ before, call ∈ others := fun call hcall =>
      hrest.mem_iff.mp (List.mem_append_left after hcall)
    have hcontent := content?_of_text hreal htext hstart maxSourceChars before after
      (fun call hcall => hothers call (hmem call hcall)) (fun hnone call hcall => by
        rw [hnone] at hcondition
        have hplain := hcondition.resolve_left Bool.noConfusion
        exact hplain.1 call (hmem call hcall))
    rw [hcontent]
    cases hnew : registry.content? key with
    | some => rfl
    | none =>
      rw [hnew] at hcondition
      have hplain := hcondition.resolve_left Bool.noConfusion
      have htitle : extract.titleOr
          ((((before.filterMap (contribution u key)).head?).map Prod.fst).getD result).titleOrUrl =
            extract.titleOr result.titleOrUrl := by
        rcases hplain.2 with htitle | hsame
        · exact htitle.titleOr_eq _ _
        · cases hhead : (before.filterMap (contribution u key)).head? with
          | none => rfl
          | some first =>
            obtain ⟨call, hcall, heq⟩ := List.mem_filterMap.mp (List.mem_of_mem_head? hhead)
            exact congrArg extract.titleOr (hsame call (hmem call hcall) first.1 first.2 heq)
      rw [Option.map_none, Option.getD_none, Option.getD_none, htitle]

end

/-! ### A blank extract -/

/-- A page that a search finds, with a title and a snippet. -/
def pageResult : SearchResult where
  title := "Page"
  url := "https://a.test/page"
  snippet := "snippet"
  publishedAt := none
  provider := "tavily"

/-- A search that extracts the page, and gets the text. -/
def pageCall (text : String) : SearchCall where
  results := [pageResult]
  extracts := [{ url := "https://a.test/page", content := text, title := none }]

/-- A search that does not extract. -/
def plainCall : SearchCall where
  results := [pageResult]
  extracts := []

def emptyRegistry : SourceRegistry where
  byUrl := []
  priorById := []
  nextId := 1

theorem contribution_plainCall :
    contribution .ascii "https://a.test/page" plainCall = some (pageResult, none) := by
  decide

theorem content_settled_iff_plain :
    ∃ title, ∀ order, order.Perm [pageCall "page text", plainCall] →
      (emptyRegistry.registerAll .ascii 100 order).content? "https://a.test/page" =
        some ⟨squeeze "page text".toList 100, title, true⟩ := by
  refine (content_settled_iff emptyRegistry "https://a.test/page" (pageCall "page text") [plainCall]
    pageResult { url := "https://a.test/page", content := "page text", title := none }
    (by decide) (by decide) (fun call hcall r e heq => ?_) (by decide)).mpr
      (Or.inr ⟨fun call hcall r e heq => ?_, Or.inr fun call hcall r e heq => ?_⟩) <;>
    rw [List.mem_singleton.mp hcall, contribution_plainCall] at heq <;> cases heq
  rfl

/-- A blank extract that completes first blocks the page text that another search extracts. -/
theorem content_not_settled_blank :
    contribution .ascii "https://a.test/page" (pageCall "page text") =
        some (pageResult, some
          { url := "https://a.test/page", content := "page text", title := none }) ∧
      ¬∃ title, ∀ order, order.Perm [pageCall "page text", pageCall " "] →
        (emptyRegistry.registerAll .ascii 100 order).content? "https://a.test/page" =
          some ⟨squeeze "page text".toList 100, title, true⟩ := by
  refine ⟨by decide, ?_⟩
  rintro ⟨title, h⟩
  have hblank : (emptyRegistry.registerAll .ascii 100 [pageCall " ", pageCall "page text"]).content?
      "https://a.test/page" = some ⟨"", "Page", true⟩ := by
    decide
  have hclaim := h [pageCall " ", pageCall "page text"] (List.Perm.swap _ _ [])
  rw [hblank] at hclaim
  have hsnippet : "" = squeeze "page text".toList 100 :=
    congrArg Content.snippet (Option.some_inj.mp hclaim)
  exact absurd hsnippet (by decide)

end IChat.Search
