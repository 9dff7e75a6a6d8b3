import IChat.Chat.Threads

/-!
# What the transcripts of the runs record

The transcript of a run starts with the exact input of its user message, as the plan of the
request gave it, and goes on with what the agent has put out: nothing while the run is active, and
a final message of the assistant once it has succeeded. The answer that is shown has the text of
that final message.
-/

namespace IChat.Chat

open Files Conversations Transcript

variable {loads : String → Option Json} {asks : RunRequest → Prop} {db db' : ConversationTables}
  {run : RunRow}

/-! ### Appending to a transcript -/

/-- The rows that are appended are those of the messages, numbered on. -/
theorem appended_rows {entries : List (Message × Option ℕ)} {rows rows' : List TranscriptRow}
    (hrows : SeqLog.Ascending TranscriptRow.seq rows)
    (h : entries.foldlM
      (fun rows entry => Transcript.appendTranscriptMessage rows entry.1 entry.2)
        rows = .ok rows') :
    SeqLog.Ascending TranscriptRow.seq rows' ∧ ∃ appended, rows' = rows ++ appended ∧
      ∀ row ∈ appended, ∃ entry ∈ entries, ∃ seq, row = storedRow seq entry.1 entry.2 := by
  let P (rows' : List TranscriptRow) : Prop :=
    SeqLog.Ascending TranscriptRow.seq rows' ∧ ∃ appended, rows' = rows ++ appended ∧
      ∀ row ∈ appended, ∃ entry ∈ entries, ∃ seq, row = storedRow seq entry.1 entry.2
  have hinit : P rows :=
    ⟨hrows, [], (List.append_nil _).symm, fun _ hnil => absurd hnil List.not_mem_nil⟩
  change P rows'
  refine Except.foldlM_invariant (fun entry hentry rows₁ rows₂ hrows₁ hstep => ?_) hinit h
  obtain ⟨hascending, appended, rfl, happended⟩ := hrows₁
  obtain ⟨-, hstep⟩ := ite_error_eq_ok_iff.mp hstep
  cases hstep
  refine ⟨hascending.append_singleton fun row hrow => seq_lt_getNextTranscriptSeq hrow,
    appended ++ [storedRow (Transcript.getNextTranscriptSeq (rows ++ appended)) entry.1 entry.2],
    List.append_assoc _ _ _, fun row hrow => ?_⟩
  rcases List.mem_append.mp hrow with hold | hnew
  · exact happended row hold
  · exact ⟨entry, hentry, _, List.mem_singleton.mp hnew⟩

/-- What the agent puts out can be stored. -/
theorem valid_of_isOutput {message : Message} (h : message.IsOutput) : message.Valid := by
  obtain ⟨role, blocks⟩ := message
  cases role with
  | system => exact absurd h id
  | user =>
    refine ⟨nofun, fun block hblock => ?_⟩
    have hresult := h block hblock
    cases block <;> trivial
  | assistant =>
    refine ⟨nofun, fun block hblock => ?_⟩
    have hmodel := h block hblock
    cases block <;> trivial

/-- The entries of a transcript that is persisted. -/
def persistedEntries (transcript : List Message) (finalMessageId : Option ℕ) :
    List (Message × Option ℕ) :=
  transcript.zipIdx.map fun entry =>
    (entry.1, if entry.2 + 1 = transcript.length then finalMessageId else none)

theorem map_fst_persistedEntries (transcript : List Message) (finalMessageId : Option ℕ) :
    (persistedEntries transcript finalMessageId).map Prod.fst = transcript := by
  rw [persistedEntries, List.map_map]
  exact List.zipIdx_map_fst 0 transcript

/-- Only the final message of a transcript is linked to a message of the conversation. -/
theorem role_of_mem_persistedEntries {transcript : List Message} {finalMessageId : Option ℕ}
    {entry : Message × Option ℕ} (h : entry ∈ persistedEntries transcript finalMessageId)
    (hlinked : entry.2 ≠ none) :
    transcript.getLast? = some entry.1 ∧ entry.2 = finalMessageId := by
  obtain ⟨⟨message, index⟩, hmem, rfl⟩ := List.mem_map.mp h
  dsimp only at hlinked ⊢
  split_ifs at hlinked with hlast
  · rw [List.mem_zipIdx_iff_getElem?] at hmem
    refine ⟨?_, if_pos hlast⟩
    rw [List.getLast?_eq_getElem?, show transcript.length - 1 = index by omega]
    exact hmem
  · exact absurd rfl hlinked

/-- **Persisting.** The rows of what the agent has put out follow what the run had, and are loaded
as they were. -/
theorem persistTranscript_eq_ok {transcript : List Message} {finalMessageId : Option ℕ}
    {rows rows' : List TranscriptRow} {earlier : List Message}
    (houtput : ∀ message ∈ transcript, message.IsOutput)
    (hrows : SeqLog.Ascending TranscriptRow.seq rows)
    (hearlier : loadTranscript loads rows = .ok earlier)
    (h : ConversationTables.persistTranscript transcript finalMessageId rows = .ok rows') :
    SeqLog.Ascending TranscriptRow.seq rows' ∧
      loadTranscript loads rows' = .ok (earlier ++ transcript) ∧
      ∃ appended, rows' = rows ++ appended ∧ ∀ row ∈ appended, row.messageId ≠ none →
        row.messageId = finalMessageId ∧ ∃ final ∈ transcript.getLast?,
          row.role = final.role.value := by
  have hfold : (persistedEntries transcript finalMessageId).foldlM
      (fun rows entry => Transcript.appendTranscriptMessage rows entry.1 entry.2) rows =
        .ok rows' := by
    unfold ConversationTables.persistTranscript at h
    rw [persistedEntries, List.foldlM_map]
    cases hresult : transcript.zipIdx.foldlM (fun rows entry =>
        Transcript.appendTranscriptMessage rows entry.1
        (if entry.2 + 1 = transcript.length then finalMessageId else none)) rows with
    | error e =>
      rw [hresult] at h
      cases h
    | ok result =>
      rw [hresult] at h
      cases h
      rfl
  have hvalid : ∀ entry ∈ persistedEntries transcript finalMessageId, entry.1.Valid := by
    intro entry hentry
    refine valid_of_isOutput (houtput _ ?_)
    rw [← map_fst_persistedEntries transcript finalMessageId]
    exact List.mem_map_of_mem hentry
  obtain ⟨hascending, appended, rfl, happended⟩ := appended_rows hrows hfold
  obtain ⟨result, hresult, hload⟩ := loadTranscript_appendTranscript loads hvalid hrows hearlier
  rw [hfold] at hresult
  cases hresult
  rw [map_fst_persistedEntries] at hload
  refine ⟨hascending, hload, appended, rfl, fun row hrow hlinked => ?_⟩
  obtain ⟨entry, hentry, seq, rfl⟩ := happended row hrow
  obtain ⟨hlast, hfinal⟩ := role_of_mem_persistedEntries hentry hlinked
  exact ⟨hfinal, entry.1, hlast, rfl⟩

/-! ### What a run records -/

/-- The blocks of the input that the transcript of a run starts with. -/
def recordedInput (loads : String → Option Json) (run : RunRow) : List ContentBlock :=
  match loadTranscript loads run.transcript with
  | .ok (first :: _) => first.blocks
  | _ => []

/-- What the transcript of a run has behind the input. -/
def recordedOutput (loads : String → Option Json) (run : RunRow) : List Message :=
  match loadTranscript loads run.transcript with
  | .ok (_ :: output) => output
  | _ => []

/-- What the transcript of a run is. -/
structure Recorded (loads : String → Option Json) (run : RunRow) : Prop where
  loaded : loadTranscript loads run.transcript =
    .ok (⟨.user, recordedInput loads run⟩ :: recordedOutput loads run)
  ascending : SeqLog.Ascending TranscriptRow.seq run.transcript
  first : ∃ rest, run.transcript =
      storedRow 1 ⟨.user, recordedInput loads run⟩ (some run.userMessageId) :: rest ∧
    ∀ row ∈ rest, row.messageId ≠ none → row.role = Role.assistant.value
  input : ∃ content files,
    PlannedInput run.supportsImageInput content files (recordedInput loads run)
  output : ∀ message ∈ recordedOutput loads run, message.IsOutput
  active : isActiveStatus run.status = true → recordedOutput loads run = []
  succeeded : run.status = .succeeded →
    ∃ final ∈ (recordedOutput loads run).getLast?, final.role = .assistant

theorem recorded_eq {input : List ContentBlock} {output : List Message}
    (h : loadTranscript loads run.transcript = .ok (⟨.user, input⟩ :: output)) :
    recordedInput loads run = input ∧ recordedOutput loads run = output := by
  simp [recordedInput, recordedOutput, h]

/-- A new run records the input it was created with. -/
theorem load_newRun {request : RunRequest} {userMessageId : ℕ} {content : String}
    {files : List FileAsset} {blocks : List ContentBlock}
    (hinput : PlannedInput request.supportsImageInput content files blocks) :
    loadTranscript loads (newRun db request userMessageId blocks).transcript =
      .ok [⟨.user, blocks⟩] := by
  rw [newRun, loadTranscript_of_ascending loads (SeqLog.ascending_cons.mpr
    ⟨fun _ hnil => absurd hnil List.not_mem_nil, SeqLog.ascending_nil⟩), List.mapM_cons,
    transcriptMessageFromRow_storedRow loads _ _ hinput.valid]
  rfl

theorem recorded_newRun {request : RunRequest} {userMessageId : ℕ} {content : String}
    {files : List FileAsset} {blocks : List ContentBlock}
    (hinput : PlannedInput request.supportsImageInput content files blocks) :
    Recorded loads (newRun db request userMessageId blocks) := by
  have hload : loadTranscript loads (newRun db request userMessageId blocks).transcript = _ :=
    load_newRun hinput
  obtain ⟨hin, hout⟩ := recorded_eq hload
  refine ⟨by rw [hin, hout, hload], ?_, ⟨[], by rw [hin]; rfl, by simp⟩,
    ⟨content, files, by rw [hin]; exact hinput⟩, by simp [hout], fun _ => hout, nofun⟩
  exact SeqLog.ascending_cons.mpr
    ⟨fun _ hnil => absurd hnil List.not_mem_nil, SeqLog.ascending_nil⟩

/-- A run that goes on records the same. -/
theorem Recorded.advance (h : Recorded loads run) {status : RunStatus}
    (hactive : isActiveStatus run.status = true) (hstatus : isActiveStatus status = true) :
    Recorded loads { run with status } where
  loaded := h.loaded
  ascending := h.ascending
  first := h.first
  input := h.input
  output := h.output
  active _ := h.active hactive
  succeeded hsucceeded := absurd hsucceeded (ne_succeeded_of_isActiveStatus hstatus)

/-- A run that ends records the same input, and what the agent has put out. -/
theorem Recorded.ended (h : Recorded loads run) {status : RunStatus} {transcript : List Message}
    {finalMessageId : Option ℕ} {rows : List TranscriptRow}
    (hactive : isActiveStatus run.status = true) (hstatus : isActiveStatus status = false)
    (houtput : ∀ message ∈ transcript, message.IsOutput)
    (hfinal : ∀ id, finalMessageId = some id → ∀ final ∈ transcript.getLast?,
      final.role = .assistant)
    (hsucceeded : status = .succeeded → ∃ final ∈ transcript.getLast?, final.role = .assistant)
    (hrows : ConversationTables.persistTranscript transcript finalMessageId run.transcript =
      .ok rows) :
    Recorded loads { run with status, transcript := rows } ∧
      recordedInput loads { run with status, transcript := rows } = recordedInput loads run ∧
      recordedOutput loads { run with status, transcript := rows } = transcript := by
  obtain ⟨hascending, hload, appended, rfl, hlinked⟩ :=
    persistTranscript_eq_ok houtput h.ascending h.loaded hrows
  rw [h.active hactive] at hload
  let ended : RunRow := { run with status, transcript := run.transcript ++ appended }
  have hended : loadTranscript loads ended.transcript = _ := hload
  have hsame := recorded_eq hended
  obtain ⟨rest, hrest, hassistant⟩ := h.first
  refine ⟨⟨?_, hascending, ⟨rest ++ appended, ?_, fun row hrow hmessage => ?_⟩, ?_, ?_, ?_, ?_⟩,
    hsame⟩
  · rw [hsame.1, hsame.2]
    exact hload
  · rw [hsame.1]
    change run.transcript ++ appended = _
    rw [hrest]
    rfl
  · rcases List.mem_append.mp hrow with hold | hnew
    · exact hassistant row hold hmessage
    · obtain ⟨hid, final, hlast, hrole⟩ := hlinked row hnew hmessage
      obtain ⟨id, hsome⟩ := Option.ne_none_iff_exists'.mp hmessage
      rw [hrole, hfinal id (hid.symm.trans hsome) final hlast]
  · rw [hsame.1]
    exact h.input
  · rw [hsame.2]
    exact houtput
  · exact fun hactive' => absurd hactive' (by simp [hstatus])
  · rw [hsame.2]
    exact hsucceeded

/-! ### The invariant -/

/-- What the runs of the tables record, and what it has to do with the messages. -/
structure Recordings (loads : String → Option Json) (db : ConversationTables) : Prop where
  recorded : ∀ run ∈ db.runs, Recorded loads run
  userMessageId_lt : ∀ run ∈ db.runs, run.userMessageId < db.messages.next
  runId_lt : ∀ m ∈ db.messages, ∀ id ∈ m.runId, id < db.runs.next
  input : ∀ run ∈ db.runs, ∀ m ∈ db.messages, m.id = run.userMessageId →
    ∃ files, PlannedInput run.supportsImageInput (modelContent m.replyQuoteExcerpt m.content) files
      (recordedInput loads run)
  answer : ∀ a ∈ db.messages, a.role = .assistant → ∀ run ∈ db.runs, a.runId = some run.id →
    run.status = .succeeded ∧
      ∃ final ∈ (recordedOutput loads run).getLast?, a.content = final.text

/-- Nothing of an archived row that counts here is changed. -/
theorem Recordings.archived (h : Recordings loads db) {conversationId now : ℕ} {p : ℕ → Bool}
    {m₀ m : MessageRow} (hm₀ : m₀ ∈ db.messages) (heq : archivedRow conversationId p now m₀ = m) :
    (∀ id ∈ m.runId, id < db.runs.next) ∧
    (∀ run ∈ db.runs, m.id = run.userMessageId → ∃ files, PlannedInput run.supportsImageInput
      (modelContent m.replyQuoteExcerpt m.content) files (recordedInput loads run)) ∧
    (m.role = .assistant → ∀ run ∈ db.runs, m.runId = some run.id → run.status = .succeeded ∧
      ∃ final ∈ (recordedOutput loads run).getLast?, m.content = final.text) := by
  obtain ⟨t, ht⟩ := archivedRow_eq conversationId p now m₀
  rw [← heq, ht]
  exact ⟨h.runId_lt m₀ hm₀, fun run hrun => h.input run hrun m₀ hm₀, h.answer m₀ hm₀⟩

/-- A question gets a run of its own: a new question, or an old one that is answered again. -/
theorem Recordings.asked {request : RunRequest} {p : ℕ → Bool} {files : List FileAsset}
    {blocks : List ContentBlock} (h : Recordings loads db) (question : MessageRow)
    (hinput : PlannedInput request.supportsImageInput
      (modelContent question.replyQuoteExcerpt question.content) files blocks)
    (hrole : question.role ≠ .assistant) (hrunId : question.runId = some db.runs.next)
    (hasked : ∀ run ∈ db.runs, question.id = run.userMessageId → ∃ files,
      PlannedInput run.supportsImageInput
        (modelContent question.replyQuoteExcerpt question.content) files (recordedInput loads run))
    (hmessages : ∀ m ∈ db'.messages, (∃ m₀ ∈ db.messages, m₀.id ≠ question.id ∧
      archivedRow request.conversationId p request.now m₀ = m) ∨ m = question)
    (hruns : ∀ r, r ∈ db'.runs ↔ r ∈ db.runs ∨ r = newRun db request question.id blocks)
    (hnext : question.id < db'.messages.next) (hgrows : db.messages.next ≤ db'.messages.next)
    (hnextRun : db'.runs.next = db.runs.next + 1) : Recordings loads db' := by
  have hload : loadTranscript loads (newRun db request question.id blocks).transcript = _ :=
    load_newRun hinput
  have hrecorded := (recorded_eq hload).1
  refine ⟨fun run hrun => ?_, fun run hrun => ?_, fun m hm id hid => ?_,
    fun run hrun m hm hid => ?_, fun a ha hassistant run hrun hanswers => ?_⟩
  · rcases (hruns run).mp hrun with hrun | rfl
    · exact h.recorded run hrun
    · exact recorded_newRun hinput
  · rcases (hruns run).mp hrun with hrun | rfl
    · exact (h.userMessageId_lt run hrun).trans_le hgrows
    · exact hnext
  · rw [hnextRun]
    rcases hmessages m hm with ⟨m₀, hm₀, -, heq⟩ | rfl
    · exact ((h.archived hm₀ heq).1 id hid).trans (Nat.lt_succ_self _)
    · obtain rfl := Option.some.inj (hrunId.symm.trans hid)
      exact Nat.lt_succ_self _
  · rcases hmessages m hm with ⟨m₀, hm₀, hne, heq⟩ | rfl <;>
      rcases (hruns run).mp hrun with hrun | rfl
    · exact (h.archived hm₀ heq).2.1 run hrun hid
    · obtain ⟨t, ht⟩ := archivedRow_eq request.conversationId p request.now m₀
      rw [← heq, ht] at hid
      exact absurd hid hne
    · exact hasked run hrun hid
    · rw [hrecorded]
      exact ⟨files, hinput⟩
  · rcases hmessages a ha with ⟨m₀, hm₀, -, heq⟩ | rfl
    · rcases (hruns run).mp hrun with hrun | rfl
      · exact (h.archived hm₀ heq).2.2 hassistant run hrun hanswers
      · exact absurd ((h.archived hm₀ heq).1 _ hanswers) (lt_irrefl _)
    · exact absurd hassistant hrole

theorem Recordings.turn {request : RunRequest} {content : String} {quoteExcerpt : Option String}
    {p : ℕ → Bool} {files : List FileAsset} {blocks : List ContentBlock} {position : ℕ}
    (h : Recordings loads db)
    (hinput : PlannedInput request.supportsImageInput (modelContent quoteExcerpt content) files
      blocks)
    (heffect : TurnEffect db db' request content quoteExcerpt p blocks position) :
    Recordings loads db' := by
  have hnext : db.messages.next < db'.messages.next := by
    rw [heffect.nextMessage]
    exact Nat.lt_succ_self _
  refine h.asked (p := p) (newMessage db request content quoteExcerpt position) hinput nofun rfl
    (fun run hrun hid => ?_) (fun m hm => ?_) heffect.runs hnext hnext.le heffect.nextRun
  · exact absurd hid (ne_of_gt (h.userMessageId_lt run hrun))
  · rcases (heffect.messages m).mp hm with ⟨m₀, hm₀, heq⟩ | hnew
    · exact .inl ⟨m₀, hm₀, ne_of_lt (db.messages.lt_next m₀ hm₀), heq⟩
    · exact .inr hnew

theorem Recordings.rerun {request : RunRequest} {anchor : MessageRow} {files : List FileAsset}
    {blocks : List ContentBlock} (h : Recordings loads db) (hmem : anchor ∈ db.messages)
    (hrole : anchor.role ≠ .assistant)
    (hinput : PlannedInput request.supportsImageInput
      (modelContent anchor.replyQuoteExcerpt anchor.content) files blocks)
    (heffect : RerunEffect db db' request anchor blocks) : Recordings loads db' := by
  have hnext : anchor.id < db'.messages.next := by
    rw [heffect.nextMessage]
    exact db.messages.lt_next anchor hmem
  exact h.asked { anchor with runId := some db.runs.next } hinput hrole rfl
    (fun run hrun => h.input run hrun anchor hmem) (fun m => (heffect.messages m).mp) heffect.runs
    hnext heffect.nextMessage.ge heffect.nextRun

/-- An active run that is written back, still with the same input. -/
theorem Recordings.moved {run' : RunRow} (h : Recordings loads db)
    (hmoved : RunMoved db db' run run') (hactive : isActiveStatus run.status = true)
    (hrecorded : Recorded loads run') (huser : run'.userMessageId = run.userMessageId)
    (hsupports : run'.supportsImageInput = run.supportsImageInput)
    (hinput : recordedInput loads run' = recordedInput loads run) : Recordings loads db' := by
  refine ⟨fun r hr => ?_, fun r hr => ?_, fun m hm id hid => ?_, fun r hr m hm hid => ?_,
    fun a ha hrole r hr hrunId => ?_⟩
  · rcases (hmoved.runs r).mp hr with rfl | ⟨hr, -⟩
    · exact hrecorded
    · exact h.recorded r hr
  · rw [hmoved.messages]
    rcases (hmoved.runs r).mp hr with rfl | ⟨hr, -⟩
    · rw [huser]
      exact h.userMessageId_lt run hmoved.mem
    · exact h.userMessageId_lt r hr
  · rw [hmoved.nextRun]
    exact h.runId_lt m (hmoved.messages ▸ hm) id hid
  · have hm₀ : m ∈ db.messages := hmoved.messages ▸ hm
    rcases (hmoved.runs r).mp hr with rfl | ⟨hr, -⟩
    · rw [hinput, hsupports]
      exact h.input run hmoved.mem m hm₀ (hid.trans huser)
    · exact h.input r hr m hm₀ hid
  · have ha₀ : a ∈ db.messages := hmoved.messages ▸ ha
    rcases (hmoved.runs r).mp hr with rfl | ⟨hr, -⟩
    · rw [hmoved.id] at hrunId
      have hsucceeded := (h.answer a ha₀ hrole run hmoved.mem hrunId).1
      exact absurd hsucceeded (ne_succeeded_of_isActiveStatus hactive)
    · exact h.answer a ha₀ hrole r hr hrunId

/-- An active run that succeeds, with its answer. -/
theorem Recordings.answers {final : Message} {metadata : Json} {rows : List TranscriptRow}
    {transcript : List Message} (h : Recordings loads db)
    (heffect : AnswerEffect db db' run final metadata rows)
    (houtput : ∀ message ∈ transcript, message.IsOutput)
    (hlast : transcript.getLast? = some final) (hrole : final.role = .assistant)
    (hrows : ConversationTables.persistTranscript transcript (some db.messages.next)
      run.transcript = .ok rows) : Recordings loads db' := by
  have hfinal : ∀ f ∈ transcript.getLast?, f.role = .assistant := by
    rw [hlast]
    rintro f ⟨⟩
    exact hrole
  have hended : isActiveStatus .succeeded = false := rfl
  obtain ⟨hrecorded, hinput, hout⟩ := (h.recorded run heffect.mem).ended heffect.active hended
    houtput (fun _ _ => hfinal) (fun _ => ⟨final, hlast, hrole⟩) hrows
  refine ⟨fun r hr => ?_, fun r hr => ?_, fun m hm id hid => ?_, fun r hr m hm hid => ?_,
    fun a ha hassistant r hr hrunId => ?_⟩
  · rcases (heffect.runs r).mp hr with rfl | ⟨hr, -⟩
    · exact hrecorded
    · exact h.recorded r hr
  · rw [heffect.nextMessage]
    refine Nat.lt_succ_of_lt ?_
    rcases (heffect.runs r).mp hr with rfl | ⟨hr, -⟩
    · exact h.userMessageId_lt run heffect.mem
    · exact h.userMessageId_lt r hr
  · rw [heffect.nextRun]
    rcases (heffect.messages m).mp hm with hm | rfl
    · exact h.runId_lt m hm id hid
    · cases hid
      exact db.runs.lt_next run heffect.mem
  · rcases (heffect.messages m).mp hm with hm | rfl
    · rcases (heffect.runs r).mp hr with rfl | ⟨hr, -⟩
      · rw [hinput]
        exact h.input run heffect.mem m hm hid
      · exact h.input r hr m hm hid
    · -- the answer is not the user message of a run
      have hlt : r.userMessageId < db.messages.next := by
        rcases (heffect.runs r).mp hr with rfl | ⟨hr, -⟩
        · exact h.userMessageId_lt run heffect.mem
        · exact h.userMessageId_lt r hr
      exact absurd hid (ne_of_gt hlt)
  · rcases (heffect.messages a).mp ha with ha | rfl <;>
      rcases (heffect.runs r).mp hr with rfl | ⟨hr, hne⟩
    · have hsucceeded := (h.answer a ha hassistant run heffect.mem hrunId).1
      exact absurd hsucceeded (ne_succeeded_of_isActiveStatus heffect.active)
    · exact h.answer a ha hassistant r hr hrunId
    · rw [hout]
      exact ⟨rfl, final, hlast, rfl⟩
    · exact absurd (Option.some.inj hrunId).symm hne

/-- **Recordings.** What the runs record is kept by every step. -/
theorem TablesStep.recordings (h : TablesStep loads asks db db')
    (hrecordings : Recordings loads db) :
    Recordings loads db' := by
  cases h with
  | conversations =>
    exact ⟨hrecordings.recorded, hrecordings.userMessageId_lt, hrecordings.runId_lt,
      hrecordings.input, hrecordings.answer⟩
  | turn asked idle upper cut images input result =>
    obtain ⟨position, heffect⟩ := turnEffect result
    exact hrecordings.turn input heffect
  | rerun asked idle mem here shown role images input result =>
    exact hrecordings.rerun mem role input (rerunEffect mem result)
  | advance runId status result =>
    obtain ⟨run, hactive, hstatus, hmoved⟩ := advanceRun_eq_ok result
    exact hrecordings.moved hmoved hactive
      ((hrecordings.recorded run hmoved.mem).advance hactive hstatus) rfl rfl rfl
  | succeed runId transcript metadata output result =>
    obtain ⟨run, final, rows, -, hlast, hrole, hrows, heffect⟩ := succeedRun_eq_ok result
    exact hrecordings.answers heffect output hlast hrole hrows
  | ended runId status transcript output result =>
    obtain ⟨run, rows, hactive, hstatus, hrows, hmoved⟩ := endRun_eq_ok result
    have hinactive : isActiveStatus status = false ∧ status ≠ .succeeded := by
      rcases hstatus with rfl | rfl <;> exact ⟨rfl, nofun⟩
    obtain ⟨hrecorded, hinput, -⟩ := (hrecordings.recorded run hmoved.mem).ended hactive
      hinactive.1 output (fun _ hnone => by cases hnone) (fun hsucceeded =>
        absurd hsucceeded hinactive.2) hrows
    exact hrecordings.moved hmoved hactive hrecorded rfl rfl hinput
  | purge =>
    refine ⟨fun r hr => ?_, fun r hr => ?_, fun m hm => ?_, fun r hr m hm => ?_,
      fun a ha hrole r hr => ?_⟩
    · exact hrecordings.recorded r (Table.mem_filter.mp hr).1
    · exact hrecordings.userMessageId_lt r (Table.mem_filter.mp hr).1
    · exact hrecordings.runId_lt m (Table.mem_filter.mp hm).1
    · exact hrecordings.input r (Table.mem_filter.mp hr).1 m (Table.mem_filter.mp hm).1
    · exact hrecordings.answer a (Table.mem_filter.mp ha).1 hrole r (Table.mem_filter.mp hr).1

end IChat.Chat
