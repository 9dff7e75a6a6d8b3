import IChat.Runs.Database

/-!
# Status transitions

The statements of `lifecycle.py`, `cancel_owned_run` and the two transactions with which the
executor ends a run. Each of them reads the status under the row lock and refuses when it is not
one of the statuses it may leave.

The five functions that write a terminal status differ only in the statuses they accept, the
columns they set and the event they append, so they are instances of `endRun`; its two cases
(`endRun_eq_ok`) are all that later proofs use of them.
-/

namespace IChat

/-- `SUCCEEDED_FROM_STATUSES`. -/
def succeededFromStatuses : List RunStatus := [.started, .streaming]

/-- `FAILED_FROM_STATUSES`. -/
def failedFromStatuses : List RunStatus := [.started, .streaming, .cancelling]

/-- `CANCELLED_FROM_STATUSES`. -/
def cancelledFromStatuses : List RunStatus := [.queued, .started, .streaming, .cancelling]

/-- `RENEWABLE_STATUSES`. -/
def renewableStatuses : List RunStatus := [.started, .streaming, .cancelling]

/-- `ACTIVE_STATUSES_FOR_RECOVERY`. -/
def activeStatusesForRecovery : List RunStatus := [.started, .streaming, .cancelling]

/-- `CANCEL_DIRECT_STATUSES`. -/
def cancelDirectStatuses : List RunStatus := [.queued]

/-- `CANCEL_REQUEST_STATUSES`. -/
def cancelRequestStatuses : List RunStatus := [.started, .streaming]

/-- `claim_next_queued_run`, seen from one run: it is claimed when it is the queued run selected.
The result says whether it was. -/
def claimNextQueuedRun (workerId : String) (leaseSeconds : ℕ) (now : Time) (db : Db) :
    Except DbError (Db × Bool) :=
  if db.run.status = .queued then do
    let db' ← appendRunEvent now .runStarted [] none
      { db with
        run := { db.run with
          status := .started
          leaseOwner := some workerId
          leaseExpiresAt := some (now + leaseSeconds)
          heartbeatAt := some now
          startedAt := some now } }
    .ok (db', true)
  else .ok (db, false)

/-- `mark_run_streaming`. -/
def markRunStreaming (now : Time) (db : Db) : Db × Bool :=
  if db.run.status = .started then
    ({ db with
      run := { db.run with
        status := .streaming
        firstStreamedAt := some (db.run.firstStreamedAt.getD now) } }, true)
  else (db, false)

/-- `record_run_timing`. -/
def recordRunTiming (timing : Dict) (db : Db) : Db :=
  { db with run := { db.run with timing := some timing } }

/-! ### Terminal statuses -/

/-- The columns every terminal transition writes. -/
def Run.close (run : Run) (status : RunStatus) (now : Time) : Run :=
  { run with status, completedAt := some now, leaseOwner := none, leaseExpiresAt := none }

/-- Leave one of the statuses `sources` for a terminal one: write the row, then append the
terminal event. The result says whether the status admitted it. -/
def endRun (sources : List RunStatus) (finish : Run → Run) (type : RunEventType) (payload : Dict)
    (eventSeq : Option ℕ) (now : Time) (db : Db) : Except DbError (Db × Bool) :=
  if db.run.status ∈ sources then do
    let db' ← appendRunEvent now type payload eventSeq { db with run := finish db.run }
    .ok (db', true)
  else .ok (db, false)

/-- What `endRun` does: nothing when the status does not admit it, and otherwise the columns are
written and one event with a free number is appended. -/
theorem endRun_eq_ok {sources : List RunStatus} {finish : Run → Run} {type : RunEventType}
    {payload : Dict} {eventSeq : Option ℕ} {now : Time} {db db' : Db} {changed : Bool}
    (h : endRun sources finish type payload eventSeq now db = .ok (db', changed)) :
    (changed = false ∧ db' = db ∧ db.run.status ∉ sources) ∨
      (changed = true ∧ db.run.status ∈ sources ∧ ∃ row : RunEventResponse,
        RowAppended db db' row ∧ row.type = type ∧ row.payload = payload ∧
        row.seq = eventSeq.getD (getNextRunEventSeq db) ∧
        db' = { db with run := finish db.run, events := db.events ++ [row] }) := by
  unfold endRun at h
  split at h
  · rename_i hstatus
    obtain ⟨db₁, happend, hok⟩ := bind_eq_ok_iff.mp h
    obtain ⟨rfl, rfl⟩ := Prod.mk.inj (Except.ok.inj hok)
    obtain ⟨row, htype, hpayload, hseq, hpos, -, hfresh, rfl⟩ := appendRunEvent_eq_ok happend
    exact .inr ⟨rfl, hstatus, row, ⟨rfl, hpos, hfresh⟩, htype, hpayload, hseq, rfl⟩
  · rename_i hstatus
    obtain ⟨rfl, rfl⟩ := Prod.mk.inj (Except.ok.inj h)
    exact .inl ⟨rfl, rfl, hstatus⟩

/-- The payload of `run_succeeded`. -/
def usagePayload (usage : Option Dict) : Dict :=
  match usage with
  | some usage => [("usage", .obj usage)]
  | none => []

/-- The payload of `run_failed`. -/
def failurePayload (code message : String) : Dict :=
  [("code", .str code), ("message", .str message)]

/-- `mark_run_succeeded`. -/
def markRunSucceeded (usage : Option Dict) (providerRequestId : Option String)
    (eventSeq : Option ℕ) (now : Time) (db : Db) : Except DbError (Db × Bool) :=
  endRun succeededFromStatuses
    (fun run => { run.close .succeeded now with
      usageMetadata := usage, providerRequestId := providerRequestId })
    .runSucceeded (usagePayload usage) eventSeq now db

/-- `mark_run_failed`. -/
def markRunFailed (code message : String) (eventSeq : Option ℕ) (now : Time) (db : Db) :
    Except DbError (Db × Bool) :=
  endRun failedFromStatuses
    (fun run => { run.close .failed now with
      failedAt := some now, errorCode := some code, errorMessage := some message })
    .runFailed (failurePayload code message) eventSeq now db

/-- `mark_run_cancelled`. -/
def markRunCancelled (eventSeq : Option ℕ) (now : Time) (db : Db) : Except DbError (Db × Bool) :=
  endRun cancelledFromStatuses
    (fun run => { run.close .cancelled now with cancelledAt := some now })
    .runCancelled [] eventSeq now db

/-- `mark_run_cancelled_if_cancelling`. -/
def markRunCancelledIfCancelling (eventSeq : Option ℕ) (now : Time) (db : Db) :
    Except DbError (Db × Bool) :=
  endRun [.cancelling]
    (fun run => { run.close .cancelled now with cancelledAt := some now })
    .runCancelled [] eventSeq now db

/-- `cancel_owned_run`, for a run its caller owns: a queued run is ended, a running one is asked
to stop, any other is left alone. -/
def cancelOwnedRun (now : Time) (db : Db) : Except DbError Db :=
  if db.run.status ∈ cancelDirectStatuses then do
    let (db', _) ← endRun cancelDirectStatuses
      (fun run => { run.close .cancelled now with cancelledAt := some now })
      .runCancelled [] none now db
    .ok db'
  else if db.run.status ∈ cancelRequestStatuses then
    .ok { db with run := { db.run with status := .cancelling } }
  else .ok db

/-- `renew_lease`. -/
def renewLease (workerId : Option String) (leaseSeconds : ℕ) (now : Time) (db : Db) : Db × Bool :=
  if db.run.status ∉ renewableStatuses ∨ db.run.leaseOwner = none then (db, false)
  else if workerId ≠ none ∧ db.run.leaseOwner ≠ workerId then (db, false)
  else
    ({ db with
      run := { db.run with
        leaseExpiresAt := some (now + leaseSeconds)
        heartbeatAt := some now } }, true)

/-- `is_cancelling`. -/
def isCancelling (db : Db) : Bool := db.run.status = .cancelling

/-! ### Recovery -/

/-- What `latest_stream_seq` tells the recovery: there is no stream to ask, the question failed,
or the last number in the stream. -/
inductive StreamProbe where
  | absent
  | failed
  | latest (seq : ℕ)
  deriving DecidableEq

/-- The number below which recovery assumes every event of the run to lie. -/
def recoveredLatestSeq (probe : StreamProbe) (uncertainStreamSeqGap : ℕ) (db : Db) : ℕ :=
  let latestSeq := getNextRunEventSeq db - 1
  match probe with
  | .absent => latestSeq
  | .failed => latestSeq + uncertainStreamSeqGap
  | .latest streamSeq => max latestSeq streamSeq

/-- Recovery knows of every row. -/
theorem seq_le_recoveredLatestSeq (probe : StreamProbe) (uncertainStreamSeqGap : ℕ) {db : Db}
    {row : RunEventResponse} (hrow : row ∈ db.events) :
    row.seq ≤ recoveredLatestSeq probe uncertainStreamSeqGap db := by
  have hlt := lt_getNextRunEventSeq hrow
  have hle : getNextRunEventSeq db - 1 ≤ recoveredLatestSeq probe uncertainStreamSeqGap db := by
    unfold recoveredLatestSeq
    dsimp only
    split
    · exact le_rfl
    · exact Nat.le_add_right _ _
    · exact le_max_left _ _
  omega

/-- The run is a candidate of `recover_expired_runs`. -/
def leaseExpired (now : Time) (db : Db) : Bool :=
  db.run.status ∈ activeStatusesForRecovery && db.run.leaseExpiresAt.any fun t => t < now

/-- `recover_expired_runs`, for this run: an expired one is failed above everything known of its
events, and its draft is deleted. The result says whether it was recovered. The number of the draft
is read before the stream is asked, from `draft`; the other rows are locked from then on. -/
def recoverExpiredRuns (draft : Option RunDraft) (probe : StreamProbe)
    (uncertainStreamSeqGap : ℕ) (now : Time) (db : Db) : Except DbError (Db × Bool) :=
  if leaseExpired now db then do
    let latestSeq := recoveredLatestSeq probe uncertainStreamSeqGap { db with draft := draft }
    let (db', changed) ← markRunFailed "lease_expired" "worker lease expired"
      (some (latestSeq + 1)) now db
    .ok (if changed then (deleteRunDraft db', true) else (db', false))
  else .ok (db, false)

/-! ### The executor's final transactions -/

/-- How an agent stream ended. -/
inductive StreamStatus where
  | succeeded
  | failed
  | cancelled
  deriving DecidableEq

/-- `_StreamOutcome`; the error is a provider error's code and message. -/
structure StreamOutcome where
  status : StreamStatus
  transcript : List Message
  lastSeq : ℕ
  usage : Option Dict
  providerRequestId : Option String
  error : Option (String × String)
  deriving DecidableEq

/-- `_aggregate_reasoning`. -/
def aggregateReasoning (transcript : List Message) (kind : ReasoningKind) : Option String :=
  let calls := (transcript.filter fun m => m.role = .assistant).filterMap fun m =>
    let text := m.reasoningText kind
    if text = "" then none else some text
  if calls = [] then none else some (String.intercalate "\n\n" calls)

/-- `_final_assistant_message`. -/
def finalAssistantMessage (transcript : List Message) : Except DbError Message :=
  match transcript.getLast? with
  | some m =>
    if m.role = .assistant then .ok m
    else .error (.value "Succeeded agent run did not return a final assistant message")
  | none => .error (.value "Succeeded agent run did not return a final assistant message")

/-- `materialize_assistant_message`; the result carries the message's id. -/
def materializeAssistantMessage (message : AssistantMessage) (db : Db) : Db × ℕ :=
  ({ db with messages := db.messages ++ [message] }, db.messages.length + 1)

/-- `append_transcript_message`. -/
def appendTranscriptMessage (message : Message) (messageId : Option ℕ) (db : Db) :
    Except DbError Db :=
  if message.role = .system then
    .error (.value "System messages are not part of a run transcript")
  else
    .ok { db with transcript := db.transcript ++
      [{ seq := (db.transcript.map fun m => m.seq).foldr max 0 + 1
         messageId := messageId
         role := message.role
         blocks := message.blocks }] }

/-- `_persist_transcript`: the last message is linked to the assistant message, if there is
one. -/
def persistTranscript (finalMessageId : Option ℕ) : List Message → Db → Except DbError Db
  | [], db => .ok db
  | [message], db => appendTranscriptMessage message finalMessageId db
  | message :: rest, db => do
    let db ← appendTranscriptMessage message none db
    persistTranscript finalMessageId rest db

/-- Storing a transcript touches nothing else. -/
theorem persistTranscript_eq_ok {finalMessageId : Option ℕ} {messages : List Message}
    {db db' : Db} (h : persistTranscript finalMessageId messages db = .ok db') :
    ∃ transcript, db' = { db with transcript := transcript } := by
  have happend : ∀ {message messageId} {db db' : Db},
      appendTranscriptMessage message messageId db = .ok db' →
        ∃ transcript, db' = { db with transcript := transcript } := by
    intro message messageId db db' h
    unfold appendTranscriptMessage at h
    split at h
    · cases h
    · exact ⟨_, (Except.ok.inj h).symm⟩
  induction messages generalizing db with
  | nil => exact ⟨db.transcript, (Except.ok.inj h).symm⟩
  | cons message rest ih =>
    cases rest with
    | nil => exact happend h
    | cons =>
      obtain ⟨db₁, h₁, h₂⟩ := bind_eq_ok_iff.mp h
      obtain ⟨t₁, rfl⟩ := happend h₁
      obtain ⟨t₂, rfl⟩ := ih h₂
      exact ⟨t₂, rfl⟩

/-- `_finalize_result`: one transaction that writes the terminal status the outcome allows, with
the assistant message of a success and the transcript. `metadata` and `timing` are what the agent
and the timer return; the result is the terminal event this worker wrote. -/
def finalizeResult (outcome : StreamOutcome) (metadata : Option Dict) (timing : Dict) (now : Time)
    (db : Db) : Except DbError (Db × Option RunEvent) :=
  let terminalSeq := outcome.lastSeq + 1
  match outcome.status with
  | .succeeded => do
    let (db, changed) ← markRunSucceeded outcome.usage outcome.providerRequestId
      (some terminalSeq) now db
    if changed then
      let final ← finalAssistantMessage outcome.transcript
      let (db, messageId) := materializeAssistantMessage
        { content := final.text
          reasoning := aggregateReasoning outcome.transcript .raw
          reasoningSummary := aggregateReasoning outcome.transcript .summary
          metadata := metadata } db
      let db ← persistTranscript (some messageId) outcome.transcript db
      .ok (recordRunTiming timing db,
        some ⟨terminalSeq, .runSucceeded, usagePayload outcome.usage⟩)
    else
      let (db, cancelled) ← markRunCancelledIfCancelling (some terminalSeq) now db
      if cancelled then .ok (recordRunTiming timing db, some ⟨terminalSeq, .runCancelled, []⟩)
      else .ok (db, none)
  | .cancelled => do
    let (db, changed) ← markRunCancelled (some terminalSeq) now db
    if changed then
      let db ← persistTranscript none outcome.transcript db
      .ok (recordRunTiming timing db, some ⟨terminalSeq, .runCancelled, []⟩)
    else .ok (db, none)
  | .failed => do
    let (db, cancelled) ← markRunCancelledIfCancelling (some terminalSeq) now db
    if cancelled then
      let db ← persistTranscript none outcome.transcript db
      .ok (recordRunTiming timing db, some ⟨terminalSeq, .runCancelled, []⟩)
    else
      let (code, message) := outcome.error.getD ("unknown_error", "Agent run failed")
      let (db, changed) ← markRunFailed code message (some terminalSeq) now db
      if changed then
        let db ← persistTranscript none outcome.transcript db
        .ok (recordRunTiming timing db, some ⟨terminalSeq, .runFailed, failurePayload code message⟩)
      else .ok (db, none)

/-- `_mark_failed_or_cancelled_if_cancelling`. -/
def markFailedOrCancelledIfCancelling (code message : String) (eventSeq : ℕ) (timing : Dict)
    (now : Time) (db : Db) : Except DbError (Db × Option RunEvent) := do
  let (db, cancelled) ← markRunCancelledIfCancelling (some eventSeq) now db
  if cancelled then .ok (recordRunTiming timing db, some ⟨eventSeq, .runCancelled, []⟩)
  else
    let (db, failed) ← markRunFailed code message (some eventSeq) now db
    if failed then
      .ok (recordRunTiming timing db, some ⟨eventSeq, .runFailed, failurePayload code message⟩)
    else .ok (db, none)

end IChat
