import IChat.Conversations.AssistantText
import IChat.Runs.WorldInvariant
import IChat.Search.ConversationSources

/-!
# Storing the answer of a run

When a run succeeds, `_finalize_result` reads the text of the answer three times before it commits:
for the citations that select the sources of the message, for its search text, and again for the
citations in that text. `finalizeAnswer` is the transaction with these computations, which raise
where Python refuses to read an id (`intValue`); without them it is `finalizeResult`.

* `finalizeAnswer_of_columns`, `finalizeAnswer_of_none`: what it does when the text can be read, and
  that it does not commit otherwise.
* `finalizeAnswer_stores_iff`: in every run, an answer is stored exactly if it can be read
  (`AnswerReadable`).
-/

namespace IChat

open Conversations Search Url

/-! ### The sources of an answer -/

/-- The metadata of a message with these sources. -/
def sourcesMetadata (sources : List SourceRecord) : Option Dict :=
  if sources = [] then none
  else some [("sources", .arr (sources.map fun record => .obj record.metadata))]

/-- The id of a source, as `populate_message_search_text` reads it; a negative one names no
citation. -/
def metadataSourceId : Json → Option ℕ
  | .obj source =>
    match Dict.get? source "id" with
    | some (.int (.ofNat id)) => some id
    | some (.bool b) => some b.toNat
    | _ => none
  | _ => none

def metadataSourceIds (metadata : Option Dict) : List ℕ :=
  match (metadata.getD []).get? "sources" with
  | some (.arr sources) => sources.filterMap metadataSourceId
  | _ => []

/-! ### The transaction -/

/-- The columns that `populate_message_search_text` sets. -/
structure SearchColumns where
  searchText : List Char
  searchQuoteText : List Char
  searchTextHash : String
  searchQuoteHash : String
  searchTextVersion : ℕ

/-- `SEARCH_TEXT_VERSION`. -/
def searchTextVersion : ℕ := 1

/-- `search_text_hash`, over a digest of texts. -/
def searchTextHash (digest : List Char → String) (text : List Char) : String :=
  digest ("conversation-search:1\n".toList ++ text)

section transaction

variable (u : UnicodeData) (parse : List Char → List Token) (digest : List Char → String)
  (registry : SourceRegistry)

/-- `populate_message_search_text`, for a message of the assistant, which quotes nothing. -/
def populateMessageSearchText (content : String) (metadata : Option Dict) : Option SearchColumns :=
  (buildAssistantSearchText u (metadataSourceIds metadata) parse content.toList).map
    fun searchText =>
      { searchText
        searchQuoteText := buildUserSearchText []
        searchTextHash := searchTextHash digest searchText
        searchQuoteHash := searchTextHash digest (buildUserSearchText [])
        searchTextVersion := searchTextVersion }

/-- What is computed from the text of the answer: `assistant_metadata` and the search columns. -/
def answerColumns (text : String) : Option (Option Dict × SearchColumns) :=
  match registry.readAssistantSources u text with
  | none => none
  | some sources =>
    (populateMessageSearchText u parse digest text (sourcesMetadata sources)).map fun columns =>
      (sourcesMetadata sources, columns)

/-- `_finalize_result`, with what it computes from the text of the answer. -/
def finalizeAnswer (outcome : StreamOutcome) (timing : Dict) (now : Time) (db : Db) :
    Except DbError (Db × Option RunEvent × Option SearchColumns) :=
  let terminalSeq := outcome.lastSeq + 1
  match outcome.status with
  | .succeeded => do
    let (db, changed) ← markRunSucceeded outcome.usage outcome.providerRequestId
      (some terminalSeq) now db
    if changed then
      let final ← finalAssistantMessage outcome.transcript
      match answerColumns u parse digest registry final.text with
      | none => .error (.value "Exceeds the limit (4300 digits) for integer string conversion")
      | some (metadata, columns) =>
        let (db, messageId) := materializeAssistantMessage
          { content := final.text
            reasoning := aggregateReasoning outcome.transcript .raw
            reasoningSummary := aggregateReasoning outcome.transcript .summary
            metadata := metadata } db
        let db ← persistTranscript (some messageId) outcome.transcript db
        .ok (recordRunTiming timing db,
          some ⟨terminalSeq, .runSucceeded, usagePayload outcome.usage⟩, some columns)
    else
      let (db, cancelled) ← markRunCancelledIfCancelling (some terminalSeq) now db
      if cancelled then
        .ok (recordRunTiming timing db, some ⟨terminalSeq, .runCancelled, []⟩, none)
      else .ok (db, none, none)
  | _ => (finalizeResult outcome none timing now db).map fun r => (r.1, r.2, none)

end transaction

/-- The rows with which a transcript is stored, from a number on. -/
def transcriptRows (finalMessageId : Option ℕ) : ℕ → List Message → List RunProviderMessage
  | _, [] => []
  | seq, [message] => [⟨seq, finalMessageId, message.role, message.blocks⟩]
  | seq, message :: rest =>
    ⟨seq, none, message.role, message.blocks⟩ :: transcriptRows finalMessageId (seq + 1) rest

/-- The number of the next row. -/
def nextTranscriptSeq (rows : List RunProviderMessage) : ℕ :=
  (rows.map fun m => m.seq).foldr max 0 + 1

/-- The answer of an outcome is stored: the run has succeeded, the message stands in the
conversation with its sources, and the transcript is complete. -/
structure AnswerStored (u : UnicodeData) (registry : SourceRegistry) (outcome : StreamOutcome)
    (answer : Message) (db db' : Db) : Prop where
  succeeded : db'.run.status = .succeeded
  message : db'.messages = db.messages ++
    [{ content := answer.text
       reasoning := aggregateReasoning outcome.transcript .raw
       reasoningSummary := aggregateReasoning outcome.transcript .summary
       metadata := sourcesMetadata (registry.assistantSources u answer.text) }]
  transcript : db'.transcript = db.transcript ++
    transcriptRows (some (db.messages.length + 1)) (nextTranscriptSeq db.transcript)
      outcome.transcript

/-- An id names a source of an answer: one of the run, or a prior one that the text cites. -/
def NamesSource (u : UnicodeData) (registry : SourceRegistry) (text : String) (id : ℕ) : Prop :=
  (∃ e ∈ registry.byUrl, e.2.id = id) ∨
    (id ∈ registry.priorById.map Prod.fst ∧ id ∈ citedSourceIds u text)

/-- The condition on the text of an answer: no citation in its prose has more than 4300 digits, and
none that is read in a text token, before a source in its run. -/
structure AnswerReadable (u : UnicodeData) (parse : List Char → List Token)
    (registry : SourceRegistry) (text : String) : Prop where
  citations : ∀ digits ∈ citedDigits u text, digits.length ≤ 4300
  tokens : ¬Unreadable u (NamesSource u registry text) (texts (parse (cleaned text.toList)))

/-! ### Reading the citations -/

variable {u : UnicodeData} {registry : SourceRegistry} {text : String}

theorem metadataSourceIds_sourcesMetadata (sources : List SourceRecord) :
    metadataSourceIds (sourcesMetadata sources) = sources.map SourceRecord.id := by
  rw [sourcesMetadata]
  split_ifs with h
  · rw [h]
    rfl
  · have hids : ∀ sources : List SourceRecord,
        (sources.map fun record => Json.obj record.metadata).filterMap metadataSourceId =
          sources.map SourceRecord.id := by
      intro sources
      induction sources with
      | nil => rfl
      | cons record sources ih =>
        rw [List.map_cons, List.filterMap_cons, ih]
        rfl
    exact hids sources

/-- The prior sources of a registry stand under their ids. -/
def Keyed (registry : SourceRegistry) : Prop := ∀ e ∈ registry.priorById, e.2.id = e.1

theorem keyed_registerAll {prior : List Dict} {maxSourceChars : ℕ} (calls : List SearchCall)
    (h : SourceRegistry.restore u prior = some registry) :
    Keyed (registry.registerAll u maxSourceChars calls) := by
  refine registerAll_invariant (fun registry extracts _ _ result _ key _ hkeyed => ?_)
    fun e he => ((SourceRegistry.restore_knowsPrior h).2.entry e he).2.1
  have hprior : (registry.registerResult u extracts maxSourceChars result key).priorById =
      registry.priorById := by
    rw [SourceRegistry.registerResult]
    split
    · rfl
    · split <;> rfl
  rw [Keyed, hprior]
  exact hkeyed

theorem collect_concat_none {cited : List ℕ} {n : ℕ} (h : registry.priorById.lookup n = none) :
    registry.collect (cited ++ [n]) = registry.collect cited := by
  simp only [SourceRegistry.collect, List.foldl_append, List.foldl_cons, List.foldl_nil, h]

theorem collect_concat_some {cited : List ℕ} {n : ℕ} {prior : SourceRecord}
    (h : registry.priorById.lookup n = some prior) :
    registry.collect (cited ++ [n]) =
      if n ∈ (registry.collect cited).map SourceRecord.id then registry.collect cited
      else registry.collect cited ++ [prior] := by
  rw [SourceRegistry.collect, List.foldl_append, List.foldl_cons, List.foldl_nil, h]
  rfl

theorem mem_collect_iff (hkeyed : Keyed registry) {id : ℕ} {cited : List ℕ} :
    id ∈ (registry.collect cited).map SourceRecord.id ↔
      id ∈ (registry.byUrl.map Prod.snd).map SourceRecord.id ∨
        (id ∈ registry.priorById.map Prod.fst ∧ id ∈ cited) := by
  -- on the cited ids, from the last one; one without a record is passed over
  induction cited using List.reverseRecOn with
  | nil => simp [SourceRegistry.collect]
  | append_singleton cited n ih =>
    rw [List.mem_append, List.mem_singleton]
    cases hlookup : registry.priorById.lookup n with
    | none =>
      have hnot : n ∉ registry.priorById.map Prod.fst := by
        intro hmem
        obtain ⟨e, he, rfl⟩ := List.mem_map.mp hmem
        exact absurd (List.lookup_eq_none_iff.mp hlookup e he) (by simp)
      rw [collect_concat_none hlookup, ih]
      refine or_congr_right (and_congr_right fun hid => (or_iff_left ?_).symm)
      rintro rfl
      exact hnot hid
    | some prior =>
      obtain ⟨before, after, hsplit, -⟩ := List.lookup_eq_some_iff.mp hlookup
      have hmem : (n, prior) ∈ registry.priorById := by simp [hsplit]
      have hid : prior.id = n := hkeyed _ hmem
      have hknown : n ∈ registry.priorById.map Prod.fst := List.mem_map.mpr ⟨_, hmem, rfl⟩
      rw [collect_concat_some hlookup]
      split_ifs with hseen
      · rw [ih]
        constructor
        · exact Or.imp_right fun h => ⟨h.1, .inl h.2⟩
        · rintro (h | ⟨h, hcited | rfl⟩)
          · exact .inl h
          · exact .inr ⟨h, hcited⟩
          · exact ih.mp hseen
      · rw [List.map_append, List.mem_append, ih, List.map_singleton, List.mem_singleton, hid]
        constructor
        · rintro ((h | ⟨h, hcited⟩) | rfl)
          · exact .inl h
          · exact .inr ⟨h, .inl hcited⟩
          · exact .inr ⟨hknown, .inr rfl⟩
        · rintro (h | ⟨h, hcited | rfl⟩)
          · exact .inl (.inl h)
          · exact .inl (.inr ⟨h, hcited⟩)
          · exact .inr rfl

/-- The ids of the sources of an answer. -/
theorem mem_assistantSources_iff (hkeyed : Keyed registry) {id : ℕ} :
    id ∈ (registry.assistantSources u text).map SourceRecord.id ↔
      NamesSource u registry text id := by
  rw [SourceRegistry.assistantSources, mem_collect_iff hkeyed]
  simp only [NamesSource, List.mem_map, exists_exists_and_eq_and]

variable {parse : List Char → List Token} {digest : List Char → String}

/-- When the citations are short, the rest depends on the search text only. -/
theorem answerColumns_eq_map (h : ∀ digits ∈ citedDigits u text, digits.length ≤ 4300) :
    ∃ columns : List Char → SearchColumns, answerColumns u parse digest registry text =
      (buildAssistantSearchText u ((registry.assistantSources u text).map SourceRecord.id) parse
        text.toList).map fun searchText =>
          (sourcesMetadata (registry.assistantSources u text), columns searchText) := by
  have hsources : registry.readAssistantSources u text =
      some (registry.assistantSources u text) := by
    rw [SourceRegistry.readAssistantSources, readCitedSourceIds_eq h]
    rfl
  rw [answerColumns, hsources]
  dsimp only
  rw [populateMessageSearchText, metadataSourceIds_sourcesMetadata, Option.map_map]
  exact ⟨_, rfl⟩

theorem buildAssistantSearchText_assistantSources (hdigits : DecimalDigits u)
    (hkeyed : Keyed registry) :
    buildAssistantSearchText u ((registry.assistantSources u text).map SourceRecord.id) parse
        text.toList = none ↔
      Unreadable u (NamesSource u registry text) (texts (parse (cleaned text.toList))) := by
  have hnames : (fun id => id ∈ (registry.assistantSources u text).map SourceRecord.id) =
      NamesSource u registry text := by
    funext id
    exact propext (mem_assistantSources_iff hkeyed)
  rw [buildAssistantSearchText_eq_none_iff hdigits.lawful, hnames]

/-- **Reading an answer.** The columns of an answer that can be read. -/
theorem exists_answerColumns (hdigits : DecimalDigits u) (hkeyed : Keyed registry)
    (h : AnswerReadable u parse registry text) :
    ∃ columns, answerColumns u parse digest registry text =
      some (sourcesMetadata (registry.assistantSources u text), columns) := by
  obtain ⟨columns, heq⟩ := @answerColumns_eq_map u registry text parse digest h.citations
  have htext := mt (buildAssistantSearchText_assistantSources hdigits hkeyed).mp h.tokens
  obtain ⟨searchText, hsearch⟩ := Option.ne_none_iff_exists'.mp htext
  rw [heq, hsearch]
  exact ⟨_, rfl⟩

theorem answerColumns_eq_none (hdigits : DecimalDigits u) (hkeyed : Keyed registry)
    (h : ¬AnswerReadable u parse registry text) :
    answerColumns u parse digest registry text = none := by
  by_cases hshort : ∀ digits ∈ citedDigits u text, digits.length ≤ 4300
  · obtain ⟨columns, heq⟩ := @answerColumns_eq_map u registry text parse digest hshort
    have htokens : Unreadable u (NamesSource u registry text)
        (texts (parse (cleaned text.toList))) := by
      by_contra htokens
      exact h ⟨hshort, htokens⟩
    rw [heq, (buildAssistantSearchText_assistantSources hdigits hkeyed).mpr htokens]
    rfl
  · push Not at hshort
    obtain ⟨digits, hmem, hlong⟩ := hshort
    rw [answerColumns, SourceRegistry.readAssistantSources, readCitedSourceIds_eq_none hmem hlong]
    rfl

/-! ### Storing -/

variable {outcome : StreamOutcome} {answer : Message} {timing : Dict} {now : Time} {db : Db}

/-- A transcript without system messages is stored. -/
theorem persistTranscript_eq (finalMessageId : Option ℕ) {messages : List Message}
    (h : ∀ m ∈ messages, m.role ≠ .system) (db : Db) :
    persistTranscript finalMessageId messages db = .ok { db with
      transcript := db.transcript ++
        transcriptRows finalMessageId (nextTranscriptSeq db.transcript) messages } := by
  have happend : ∀ (message : Message) messageId (db : Db), message.role ≠ .system →
      appendTranscriptMessage message messageId db = .ok { db with
        transcript := db.transcript ++
          [⟨nextTranscriptSeq db.transcript, messageId, message.role, message.blocks⟩] } :=
    fun message messageId db hrole => if_neg hrole
  induction messages generalizing db with
  | nil => rw [persistTranscript, transcriptRows, List.append_nil]
  | cons message rest ih =>
    have hrole := h message List.mem_cons_self
    cases rest with
    | nil => exact happend message finalMessageId db hrole
    | cons next rest =>
      have hseq : nextTranscriptSeq (db.transcript ++
          [⟨nextTranscriptSeq db.transcript, none, message.role, message.blocks⟩]) =
            nextTranscriptSeq db.transcript + 1 := by
        have hmax : ∀ (seqs : List ℕ), (seqs ++ [seqs.foldr max 0 + 1]).foldr max 0 =
            seqs.foldr max 0 + 1 := by
          intro seqs
          have hle : ∀ (seqs : List ℕ) n, seqs.foldr max 0 ≤ n →
              (seqs ++ [n]).foldr max 0 = n := by
            intro seqs n
            induction seqs with
            | nil => intro _; exact Nat.max_zero n
            | cons seq seqs ih =>
              intro hn
              rw [List.cons_append, List.foldr_cons, ih ((le_max_right _ _).trans hn)]
              exact max_eq_right ((le_max_left _ _).trans hn)
          exact hle seqs _ (Nat.le_succ _)
        rw [nextTranscriptSeq, List.map_append]
        exact congrArg (· + 1) (hmax _)
      have hstep : persistTranscript finalMessageId (message :: next :: rest) db =
          (appendTranscriptMessage message none db).bind fun db =>
            persistTranscript finalMessageId (next :: rest) db := rfl
      rw [hstep, happend message none db hrole]
      refine (ih (fun m hm => h m (List.mem_cons_of_mem _ hm)) _).trans ?_
      dsimp only
      rw [hseq, List.append_assoc, List.singleton_append]
      rfl

/-- The status admits the success of the run, whose next event is free. -/
structure Finalizable (outcome : StreamOutcome) (db : Db) : Prop where
  succeeded : outcome.status = .succeeded
  active : db.run.status ∈ succeededFromStatuses
  fresh : ∀ e ∈ db.events, e.seq ≤ outcome.lastSeq

/-- `mark_run_succeeded` changes the run. -/
theorem Finalizable.markRunSucceeded (h : Finalizable outcome db) :
    ∃ marked : Db, markRunSucceeded outcome.usage outcome.providerRequestId
        (some (outcome.lastSeq + 1)) now db = .ok (marked, true) ∧
      marked.run.status = .succeeded ∧ marked.messages = db.messages ∧
      marked.transcript = db.transcript := by
  have hfree : ¬(outcome.lastSeq + 1 = 0 ∨
      outcome.lastSeq + 1 ∈ db.events.map fun e => e.seq) := by
    rintro (hzero | hmem)
    · omega
    · obtain ⟨e, he, hseq⟩ := List.mem_map.mp hmem
      have hle := h.fresh e he
      omega
  have happend : ∀ run, appendRunEvent now .runSucceeded (usagePayload outcome.usage)
      (some (outcome.lastSeq + 1)) { db with run := run } = .ok { db with
        run := run
        events := db.events ++
          [⟨⟨outcome.lastSeq + 1, .runSucceeded, usagePayload outcome.usage⟩, now⟩] } :=
    fun run => if_neg hfree
  rw [IChat.markRunSucceeded, endRun, if_pos h.active, happend]
  exact ⟨_, rfl, rfl, rfl, rfl⟩

theorem finalizeAnswer_of_none (h : Finalizable outcome db) {before : List Message}
    (htranscript : outcome.transcript = before ++ [answer]) (hrole : answer.role = .assistant)
    (hcolumns : answerColumns u parse digest registry answer.text = none) :
    ∀ r, finalizeAnswer u parse digest registry outcome timing now db ≠ .ok r := by
  intro r hok
  obtain ⟨marked, hmarked, -⟩ := @Finalizable.markRunSucceeded outcome now db h
  have hfinal : finalAssistantMessage outcome.transcript = .ok answer := by
    rw [finalAssistantMessage, htranscript, List.getLast?_concat]
    exact if_pos hrole
  rw [finalizeAnswer, h.succeeded] at hok
  dsimp only at hok
  rw [hmarked, hfinal] at hok
  dsimp only [Except.bind, bind] at hok
  rw [if_pos rfl, hcolumns] at hok
  cases hok

/-- An answer that can be read is stored. -/
theorem finalizeAnswer_of_columns (h : Finalizable outcome db) {before : List Message}
    (htranscript : outcome.transcript = before ++ [answer]) (hrole : answer.role = .assistant)
    (hsystem : ∀ m ∈ outcome.transcript, m.role ≠ .system) {columns : SearchColumns}
    (hcolumns : answerColumns u parse digest registry answer.text =
      some (sourcesMetadata (registry.assistantSources u answer.text), columns)) :
    ∃ db' event, finalizeAnswer u parse digest registry outcome timing now db =
        .ok (db', event, some columns) ∧ AnswerStored u registry outcome answer db db' := by
  obtain ⟨marked, hmarked, hstatus, hmessages, hrows⟩ :=
    @Finalizable.markRunSucceeded outcome now db h
  have hfinal : finalAssistantMessage outcome.transcript = .ok answer := by
    rw [finalAssistantMessage, htranscript, List.getLast?_concat]
    exact if_pos hrole
  rw [finalizeAnswer, h.succeeded]
  dsimp only
  rw [hmarked, hfinal]
  dsimp only [Except.bind, bind]
  rw [if_pos rfl, hcolumns]
  dsimp only [materializeAssistantMessage]
  rw [persistTranscript_eq _ hsystem]
  exact ⟨_, _, rfl, hstatus, congrArg (· ++ _) hmessages, by
    dsimp only [recordRunTiming]
    rw [hrows, hmessages]⟩

/-! ### Runs -/

/-- In every run, a worker that is about to finalize a success can do so while the run is active. -/
theorem WorldInv.finalizable {cfg : Settings} {w : World} (h : WorldInv cfg w)
    (hphase : w.worker.phase = .finalizing outcome) (hsucceeded : outcome.status = .succeeded)
    (hactive : w.db.run.status ∈ succeededFromStatuses) : Finalizable outcome w.db := by
  refine ⟨hsucceeded, hactive, fun e he => ?_⟩
  have hlast : outcome.lastSeq = w.worker.latestSeq := h.phase.of_phase hphase
  have hopen : runHasTerminalEvent w.db = false := by
    rw [h.runHasTerminalEvent_eq]
    revert hactive
    cases w.db.run.status <;> decide
  have htype : e.type.isTerminal = false := by
    by_contra hterminal
    rw [Bool.not_eq_false] at hterminal
    exact Bool.false_ne_true (hopen.symm.trans (runHasTerminalEvent_iff.mpr ⟨e, he, hterminal⟩))
  rw [hlast]
  exact h.row_seq_le (by rw [hphase]; rfl) he htype

/-- **Every completed answer is stored, if it can be read.** In every run of a worker and the other
actors, when the agent's stream has succeeded with an answer and the run is still active: the
transaction commits the status, the message and the transcript exactly if no citation of the answer
that is read has more than 4300 digits. -/
theorem finalizeAnswer_stores_iff (hdigits : DecimalDigits u) {cfg : Settings} {as : List Action}
    {w : World} (hrun : StepSystem.run (World.step cfg) World.init as = some w)
    (hphase : w.worker.phase = .finalizing outcome) (hsucceeded : outcome.status = .succeeded)
    (hactive : w.db.run.status ∈ succeededFromStatuses) {before : List Message}
    (htranscript : outcome.transcript = before ++ [answer]) (hrole : answer.role = .assistant)
    (hsystem : ∀ m ∈ outcome.transcript, m.role ≠ .system) {prior : List Dict}
    (hrestore : SourceRegistry.restore u prior = some registry) (maxSourceChars : ℕ)
    (calls : List SearchCall) (parse : List Char → List Token) (digest : List Char → String)
    (timing : Dict) (now : Time) :
    let sources := registry.registerAll u maxSourceChars calls
    (∃ db' event columns,
      finalizeAnswer u parse digest sources outcome timing now w.db = .ok (db', event, columns) ∧
        AnswerStored u sources outcome answer w.db db') ↔
      AnswerReadable u parse sources answer.text := by
  intro sources
  have hkeyed : Keyed sources := keyed_registerAll calls hrestore
  have hfinalizable := (worldInv_of_run hrun).finalizable hphase hsucceeded hactive
  constructor
  · rintro ⟨db', event, columns, hok, -⟩
    by_contra hnot
    exact finalizeAnswer_of_none hfinalizable htranscript hrole
      (answerColumns_eq_none hdigits hkeyed hnot) _ hok
  · intro hreadable
    obtain ⟨columns, hcolumns⟩ := @exists_answerColumns u sources answer.text parse digest hdigits
      hkeyed hreadable
    obtain ⟨db', event, hok, hstored⟩ := finalizeAnswer_of_columns hfinalizable htranscript hrole
      hsystem hcolumns
    exact ⟨db', event, some columns, hok, hstored⟩

/-- A worker that consumes a stream with nothing but a transcript. -/
def answeredRun (transcript : List Message) : List Action :=
  [.claim "worker" 30 0, .prepare none, .listPersisted true, .publishPersisted true,
    .startStreaming, .endStream .succeeded transcript none none none, .flushSinks true 0]

theorem answeredRun_finalizing (transcript : List Message) :
    ∃ w, StepSystem.run (World.step .default) World.init (answeredRun transcript) = some w ∧
      w.worker.phase = .finalizing ⟨.succeeded, transcript, 1, none, none, none⟩ ∧
      w.db.run.status = .started := ⟨_, rfl, rfl, rfl⟩

/-- The tokens of a text that is one paragraph. -/
def paragraphTokens (text : List Char) : List Token :=
  [.mk (.other "paragraph_open") [] true [], .mk .inline text true [.mk .text text false []],
    .mk (.other "paragraph_close") [] true []]

theorem decimalDigits_ascii : DecimalDigits .ascii where
  ascii _ _ := rfl
  not_space c hc := by
    have hdigit : c.isDigit = true := by
      by_contra hnot
      rw [UnicodeData.ascii] at hc
      dsimp only at hc
      rw [if_neg hnot] at hc
      cases hc
    rw [Char.isDigit, Bool.and_eq_true, decide_eq_true_eq, decide_eq_true_eq] at hdigit
    obtain ⟨hlow, hhigh⟩ := hdigit
    have hlow : 48 ≤ c.toNat := hlow
    have hhigh : c.toNat ≤ 57 := hhigh
    simp only [isSearchSpace, List.mem_cons, List.not_mem_nil, or_false, Bool.or_eq_false_iff,
      decide_eq_false_iff_not, Bool.and_eq_false_iff]
    omega

theorem finalizeAnswer_stores_iff_noon :
    ∃ w, StepSystem.run (World.step .default) World.init
        (answeredRun [⟨.assistant, [.text "It is noon [1]."]⟩]) = some w ∧
      ∃ db' event columns,
        finalizeAnswer .ascii paragraphTokens String.ofList ⟨[], [], 1⟩
            ⟨.succeeded, [⟨.assistant, [.text "It is noon [1]."]⟩], 1, none, none, none⟩ [] 0 w.db =
          .ok (db', event, columns) ∧
        AnswerStored .ascii ⟨[], [], 1⟩
          ⟨.succeeded, [⟨.assistant, [.text "It is noon [1]."]⟩], 1, none, none, none⟩
          ⟨.assistant, [.text "It is noon [1]."]⟩ w.db db' := by
  obtain ⟨w, hrun, hphase, hstatus⟩ :=
    answeredRun_finalizing [⟨.assistant, [.text "It is noon [1]."]⟩]
  have hrestore : SourceRegistry.restore .ascii [] = some ⟨[], [], 1⟩ := rfl
  refine ⟨w, hrun, (finalizeAnswer_stores_iff decimalDigits_ascii hrun hphase rfl
    (by rw [hstatus]; decide) (List.nil_append _).symm rfl (by decide) hrestore 500 []
    paragraphTokens String.ofList [] 0).mpr ⟨?_, ?_⟩⟩
  · have hcited : citedDigits .ascii "It is noon [1]." = [['1']] := by decide
    show ∀ digits ∈ citedDigits .ascii "It is noon [1].", digits.length ≤ 4300
    rw [hcited]
    simp
  · have hruns : runsOf (pythonClasses .ascii) 0 "It is noon [1].".toList = [[⟨[], ['1']⟩]] := by
      decide
    have htexts : texts (paragraphTokens (cleaned "It is noon [1].".toList)) =
        ["It is noon [1].".toList] := by decide
    show ¬Unreadable .ascii _ (texts (paragraphTokens (cleaned "It is noon [1].".toList)))
    rw [htexts]
    rintro ⟨text, htext, run, hrun, before, m, after, rfl, hlong, -⟩
    rw [List.mem_singleton.mp htext, hruns, List.mem_singleton] at hrun
    have hm : m ∈ [Marker.mk [] ['1']] := hrun ▸ List.mem_append_right _ List.mem_cons_self
    rw [List.mem_singleton.mp hm] at hlong
    simp at hlong

/-- A text without code is its own prose. -/
theorem citedDigits_of_plain {s : List Char}
    (h : ∀ c ∈ s, c ≠ Char.ofNat 96 ∧ c ≠ '~') :
    citedDigits u (String.ofList s) = citationDigits u s.length s := by
  have hfenced : ∀ fuel, ∀ s : List Char, (∀ c ∈ s, c ≠ Char.ofNat 96 ∧ c ≠ '~') →
      dropFencedCode fuel s = s := by
    intro fuel
    induction fuel with
    | zero => exact fun _ _ => rfl
    | succ fuel ih =>
      intro s hs
      cases s with
      | nil => rfl
      | cons c s =>
        obtain ⟨htick, htilde⟩ := hs c List.mem_cons_self
        rw [dropFencedCode, ih s fun d hd => hs d (List.mem_cons_of_mem _ hd)]
        exact if_neg fun hfence => hfence.1.elim htick htilde
  have hinline : ∀ fuel, ∀ s : List Char, (∀ c ∈ s, c ≠ Char.ofNat 96 ∧ c ≠ '~') →
      dropInlineCode fuel s = s := by
    intro fuel
    induction fuel with
    | zero => exact fun _ _ => rfl
    | succ fuel ih =>
      intro s hs
      cases s with
      | nil => rfl
      | cons c s =>
        rw [dropInlineCode, ih s fun d hd => hs d (List.mem_cons_of_mem _ hd)]
        exact if_neg fun htick => (hs c List.mem_cons_self).1 htick.1
  rw [citedDigits, String.toList_ofList, hfenced _ _ h, hinline _ _ h]

/-- A citation with 4301 digits. -/
def longCitation : List Char := '[' :: List.replicate 4301 '1' ++ [']']

/-- The answer is a single citation, which cannot be read: the run stays as it was. -/
theorem finalizeAnswer_raises :
    ∃ w, StepSystem.run (World.step .default) World.init
        (answeredRun [⟨.assistant, [.text (String.ofList longCitation)]⟩]) = some w ∧
      w.worker.phase = .finalizing ⟨.succeeded,
        [⟨.assistant, [.text (String.ofList longCitation)]⟩], 1, none, none, none⟩ ∧
      w.db.run.status ∈ succeededFromStatuses ∧
      ∀ r, finalizeAnswer .ascii paragraphTokens String.ofList ⟨[], [], 1⟩ ⟨.succeeded,
        [⟨.assistant, [.text (String.ofList longCitation)]⟩], 1, none, none, none⟩ [] 0 w.db ≠
          .ok r := by
  obtain ⟨w, hrun, hphase, hstatus⟩ :=
    answeredRun_finalizing [⟨.assistant, [.text (String.ofList longCitation)]⟩]
  have hactive : w.db.run.status ∈ succeededFromStatuses := by
    rw [hstatus]
    decide
  refine ⟨w, hrun, hphase, hactive, ?_⟩
  have hplain : ∀ c ∈ longCitation, c ≠ Char.ofNat 96 ∧ c ≠ '~' := by
    intro c hc
    have hcases : c = '[' ∨ c = '1' ∨ c = ']' := by
      rcases List.mem_append.mp hc with hmem | hlast
      · rcases List.mem_cons.mp hmem with hopen | hone
        · exact .inl hopen
        · exact .inr (.inl (List.eq_of_mem_replicate hone))
      · exact .inr (.inr (List.mem_singleton.mp hlast))
    obtain rfl | rfl | rfl := hcases <;> decide
  have hcited : List.replicate 4301 '1' ∈ citedDigits .ascii (String.ofList longCitation) := by
    have hdigit : ∀ c ∈ List.replicate 4301 '1', (UnicodeData.ascii.decimal c).isSome = true := by
      intro c hc
      rw [List.eq_of_mem_replicate hc]
      decide
    have htake : [']'].takeWhile (fun c => (UnicodeData.ascii.decimal c).isSome) = [] := by decide
    have hdrop : [']'].dropWhile (fun c => (UnicodeData.ascii.decimal c).isSome) = [']'] := by
      decide
    rw [citedDigits_of_plain hplain, longCitation, List.cons_append, List.length_cons,
      citationDigits, List.takeWhile_append_of_pos hdigit, List.dropWhile_append_of_pos hdigit,
      htake, hdrop, List.append_nil, if_pos ⟨rfl, List.cons_ne_nil _ _, rfl⟩]
    exact List.mem_cons_self
  refine finalizeAnswer_of_none ⟨rfl, hactive, fun e he => ?_⟩ (List.nil_append _).symm rfl ?_
  · exact ((worldInv_of_run hrun).finalizable hphase rfl hactive).fresh e he
  · refine answerColumns_eq_none decimalDigits_ascii (fun _ h => absurd h List.not_mem_nil)
      fun hreadable => ?_
    have htext : Message.text ⟨.assistant, [.text (String.ofList longCitation)]⟩ =
        String.ofList longCitation := String.empty_append
    have hshort := hreadable.citations _ (htext ▸ hcited)
    rw [List.length_replicate] at hshort
    omega

end IChat
