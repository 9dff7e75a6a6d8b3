import IChat.Runs.EventSink

/-!
# Transactions on a run

Workers, clients and the recovery loop act on one run through transactions (`Tx`), each atomic
under the lock of the run's row. An interleaving of any number of actors is a list of
transactions; one that raises is rolled back (`commit`).

`Tx.Effect` says once what a committed transaction can do to the status, the lease, the log, the
draft and the conversation, and `Tx.exec_effect` that every transaction does one of these. Every
invariant of the rows is derived from it.
-/

namespace IChat

/-- The transactions that touch a run. -/
inductive Tx where
  /-- A worker's `claim_next_queued_run`. -/
  | claim (workerId : String) (leaseSeconds : ℕ) (now : Time)
  /-- `mark_run_streaming` on its own. -/
  | markStreaming (now : Time)
  /-- A call of `PostgresEventSink.emit`, which marks the run streaming with its first event. -/
  | sinkEmit (sink : PostgresEventSink) (event : SinkEvent) (now : Time)
  /-- A heartbeat's `renew_lease`. -/
  | renewLease (workerId : Option String) (leaseSeconds : ℕ) (now : Time)
  /-- A client's `cancel_owned_run`. -/
  | cancelOwnedRun (now : Time)
  /-- The executor's `_finalize_result`. -/
  | finalizeResult (outcome : StreamOutcome) (metadata : Option Dict) (timing : Dict) (now : Time)
  /-- The executor's `_mark_failed_or_cancelled_if_cancelling`. -/
  | markFailedOrCancelled (code message : String) (eventSeq : ℕ) (timing : Dict) (now : Time)
  /-- The recovery loop's `recover_expired_runs`. -/
  | recoverExpiredRuns (draft : Option RunDraft) (probe : StreamProbe)
      (uncertainStreamSeqGap : ℕ) (now : Time)
  /-- The draft sink's `upsert_run_draft`. -/
  | upsertRunDraft (seq : ℕ) (snapshot : Snapshot) (events : List Dict) (now : Time)
  /-- The draft sink's `delete_run_draft`. -/
  | deleteRunDraft

/-- Run the statements of a transaction. -/
def Tx.exec : Tx → Db → Except DbError Db
  | .claim workerId leaseSeconds now, db =>
    (claimNextQueuedRun workerId leaseSeconds now db).map Prod.fst
  | .markStreaming now, db => .ok (markRunStreaming now db).1
  | .sinkEmit sink event now, db => (sink.emit event now db).map SinkEmit.db
  | .renewLease workerId leaseSeconds now, db =>
      .ok (IChat.renewLease workerId leaseSeconds now db).1
  | .cancelOwnedRun now, db => IChat.cancelOwnedRun now db
  | .finalizeResult outcome metadata timing now, db =>
    (IChat.finalizeResult outcome metadata timing now db).map Prod.fst
  | .markFailedOrCancelled code message eventSeq timing now, db =>
    (markFailedOrCancelledIfCancelling code message eventSeq timing now db).map Prod.fst
  | .recoverExpiredRuns draft probe gap now, db =>
    (IChat.recoverExpiredRuns draft probe gap now db).map Prod.fst
  | .upsertRunDraft seq snapshot events now, db =>
    IChat.upsertRunDraft now seq snapshot events db
  | .deleteRunDraft, db => .ok (IChat.deleteRunDraft db)

/-- Commit a transaction, or roll it back when it raises. -/
def commit (db : Db) (tx : Tx) : Db :=
  match tx.exec db with
  | .ok db' => db'
  | .error _ => db

/-- The number a transaction would give to the terminal event it writes. -/
def Tx.terminalSeq : Tx → Db → ℕ
  | .finalizeResult outcome _ _ _, _ => outcome.lastSeq + 1
  | .markFailedOrCancelled _ _ eventSeq _ _, _ => eventSeq
  | .recoverExpiredRuns draft probe gap _, db =>
    recoveredLatestSeq probe gap { db with draft := draft } + 1
  | _, db => getNextRunEventSeq db

/-- The transactions that may write a terminal status. -/
def Tx.endsRun : Tx → Bool
  | .finalizeResult _ _ _ _ | .markFailedOrCancelled _ _ _ _ _ | .recoverExpiredRuns _ _ _ _
  | .cancelOwnedRun _ => true
  | _ => false

/-- The terminal event that goes with a status. -/
def RunStatus.terminalEvent : RunStatus → Option RunEventType
  | .succeeded => some .runSucceeded
  | .failed => some .runFailed
  | .cancelled => some .runCancelled
  | _ => none

/-- Membership in `TERMINAL_STATUSES`. -/
def RunStatus.isTerminal (status : RunStatus) : Bool := status.terminalEvent.isSome

theorem RunStatus.isTerminal_of_terminalEvent {status : RunStatus} {type : RunEventType}
    (h : status.terminalEvent = some type) : type.isTerminal = true := by
  cases status <;> simp_all [RunStatus.terminalEvent] <;> subst h <;> rfl

/-! ### What a transaction can do -/

/-- What a committed transaction `tx` may do to the rows of a run. -/
inductive Tx.Effect (tx : Tx) (db db' : Db) : Prop where
  /-- Nothing but the lease of an active run and columns that nothing here depends on. -/
  | quiet (status : db'.run.status = db.run.status)
      (lease : db'.run.leaseExpiresAt = db.run.leaseExpiresAt ∨
        db.run.status ∈ renewableStatuses)
      (events : db'.events = db.events) (messages : db'.messages = db.messages)
      (draft : db'.draft = db.draft)
  /-- The draft sink wrote or deleted the draft. -/
  | draft (draft : Option RunDraft) (eq : db' = { db with draft := draft })
      (htx : (∃ seq snapshot events now, tx = .upsertRunDraft seq snapshot events now) ∨
        draft = none)
  /-- The run left the queue. -/
  | claimed (row : RunEventResponse) (queued : db.run.status = .queued)
      (started : db'.run.status = .started) (appended : RowAppended db db' row)
      (type : row.type = .runStarted) (seq : row.seq = getNextRunEventSeq db)
      (messages : db'.messages = db.messages)
      (draft : db'.draft = db.draft) (htx : ∃ workerId lease now, tx = .claim workerId lease now)
  /-- The run began to stream, or a sink appended the event it was given. -/
  | streaming (status : db'.run.status = db.run.status ∨
        db.run.status = .started ∧ db'.run.status = .streaming)
      (lease : db'.run.leaseExpiresAt = db.run.leaseExpiresAt)
      (events : db'.events = db.events ∨ ∃ sink event now row, tx = .sinkEmit sink event now ∧
        event.type.isDelta = false ∧ row.toRunEvent = event.toRunEvent ∧ RowAppended db db' row ∧
        (sink.streamingStarted = true ∨ db.run.status = .started))
      (messages : db'.messages = db.messages) (draft : db'.draft = db.draft)
  /-- A running run was asked to stop. -/
  | requested (active : db.run.status ∈ cancelRequestStatuses)
      (cancelling : db'.run.status = .cancelling)
      (lease : db'.run.leaseExpiresAt = db.run.leaseExpiresAt)
      (events : db'.events = db.events) (messages : db'.messages = db.messages)
      (draft : db'.draft = db.draft)
  /-- The run was ended: its terminal event is in the log, and a success has its message. -/
  | ended (row : RunEventResponse) (ends : tx.endsRun = true)
      (active : db.run.status.isTerminal = false)
      (queued : (∃ now, tx = .cancelOwnedRun now) → db.run.status = .queued)
      (terminal : db'.run.status.terminalEvent = some row.type)
      (lease : db'.run.leaseExpiresAt = none) (appended : RowAppended db db' row)
      (seq : row.seq = tx.terminalSeq db)
      (messages : db'.messages.length =
        db.messages.length + if db'.run.status = .succeeded then 1 else 0)
      (draft : db'.draft = db.draft ∨ db'.draft = none)

section Effect

variable {db db' : Db} {now : Time}

/-- What marking a run as streaming does, seen from the rest of the row. -/
private theorem markRunStreaming_spec (now : Time) (db : Db) :
    let r := markRunStreaming now db
    (r.1.run.status = db.run.status ∨ db.run.status = .started ∧ r.1.run.status = .streaming) ∧
      r.1.run.leaseExpiresAt = db.run.leaseExpiresAt ∧ r.1.events = db.events ∧
      r.1.messages = db.messages ∧ r.1.draft = db.draft := by
  unfold markRunStreaming
  split
  · rename_i hstarted
    exact ⟨.inr ⟨hstarted, rfl⟩, rfl, rfl, rfl, rfl⟩
  · exact ⟨.inl rfl, rfl, rfl, rfl, rfl⟩

private theorem markStreaming_effect :
    (Tx.markStreaming now).Effect db (markRunStreaming now db).1 := by
  obtain ⟨hstatus, hlease, hevents, hmessages, hdraft⟩ := markRunStreaming_spec now db
  exact .streaming hstatus hlease (.inl hevents) hmessages hdraft

private theorem sinkEmit_effect {sink : PostgresEventSink} {event : SinkEvent} {r : SinkEmit}
    (h : sink.emit event now db = .ok r) : (Tx.sinkEmit sink event now).Effect db r.db := by
  have hstart : ∀ db₁ b, sink.startStreaming now db = (db₁, b) →
      (b = true → sink.streamingStarted = true ∨ db.run.status = .started) ∧
      (db₁.run.status = db.run.status ∨ db.run.status = .started ∧ db₁.run.status = .streaming) ∧
        db₁.run.leaseExpiresAt = db.run.leaseExpiresAt ∧ db₁.events = db.events ∧
        db₁.messages = db.messages ∧ db₁.draft = db.draft := by
    intro db₁ b hs
    unfold PostgresEventSink.startStreaming at hs
    split at hs
    · rename_i hstarted
      obtain ⟨rfl, -⟩ := Prod.mk.inj hs
      exact ⟨fun _ => .inl hstarted, .inl rfl, rfl, rfl, rfl, rfl⟩
    · have hspec := markRunStreaming_spec now db
      rw [hs] at hspec
      refine ⟨fun hb => ?_, hspec⟩
      unfold markRunStreaming at hs
      split at hs
      · rename_i hstarted
        exact .inr hstarted
      · obtain ⟨-, rfl⟩ := Prod.mk.inj hs
        cases hb
  unfold PostgresEventSink.emit at h
  split at h
  · cases h
    exact .quiet rfl (.inl rfl) rfl rfl rfl
  · split at h
    · rename_i db₁ hs
      obtain ⟨hguard, hstatus, hlease, hevents, hmessages, hdraft⟩ := hstart _ _ hs
      cases h
      exact .streaming hstatus hlease (.inl hevents) hmessages hdraft
    · rename_i db₁ hs
      obtain ⟨hguard, hstatus, hlease, hevents, hmessages, hdraft⟩ := hstart _ _ hs
      split at h
      · cases h
        exact .streaming hstatus hlease (.inl hevents) hmessages hdraft
      · rename_i hdelta
        obtain ⟨db₂, happend, hok⟩ := bind_eq_ok_iff.mp h
        cases hok
        obtain ⟨row, htype, hpayload, hseq, hpos, -, hfresh, rfl⟩ := appendRunEvent_eq_ok happend
        have hrow : row.toRunEvent = event.toRunEvent := by
          obtain ⟨⟨seq, type, payload⟩, created⟩ := row
          cases htype
          cases hpayload
          simp only [Option.getD_some] at hseq
          subst hseq
          rfl
        refine .streaming hstatus hlease
          (.inr ⟨sink, event, now, row, rfl, by simpa using hdelta, hrow, ?_, hguard rfl⟩)
          hmessages hdraft
        exact ⟨by rw [← hevents], hpos, fun e he => hfresh e (hevents ▸ he)⟩

private theorem claim_effect {workerId : String} {leaseSeconds : ℕ} {r : Db × Bool}
    (h : claimNextQueuedRun workerId leaseSeconds now db = .ok r) :
    (Tx.claim workerId leaseSeconds now).Effect db r.1 := by
  unfold claimNextQueuedRun at h
  split at h
  · rename_i hqueued
    obtain ⟨db₁, happend, hok⟩ := bind_eq_ok_iff.mp h
    cases hok
    obtain ⟨row, htype, -, hseq, hpos, -, hfresh, rfl⟩ := appendRunEvent_eq_ok happend
    exact .claimed row hqueued rfl ⟨rfl, hpos, hfresh⟩ htype hseq rfl rfl ⟨_, _, _, rfl⟩
  · cases h
    exact .quiet rfl (.inl rfl) rfl rfl rfl

private theorem renewLease_effect {workerId : Option String} {leaseSeconds : ℕ} :
    (Tx.renewLease workerId leaseSeconds now).Effect db
      (renewLease workerId leaseSeconds now db).1 := by
  unfold renewLease
  split
  · exact .quiet rfl (.inl rfl) rfl rfl rfl
  · rename_i hrenewable
    obtain ⟨hstatus, -⟩ := not_or.mp hrenewable
    split
    · exact .quiet rfl (.inl rfl) rfl rfl rfl
    · exact .quiet rfl (.inr (not_not.mp hstatus)) rfl rfl rfl

/-- Two databases that agree on everything an effect speaks about. -/
private structure SameLifecycle (db db' : Db) : Prop where
  status : db'.run.status = db.run.status
  lease : db'.run.leaseExpiresAt = db.run.leaseExpiresAt
  events : db'.events = db.events
  messages : db'.messages = db.messages
  draft : db'.draft = db.draft

private theorem SameLifecycle.of_persistTranscript {finalMessageId : Option ℕ}
    {messages : List Message} (h : persistTranscript finalMessageId messages db = .ok db')
    (timing : Dict) : SameLifecycle db (recordRunTiming timing db') := by
  obtain ⟨transcript, rfl⟩ := persistTranscript_eq_ok h
  exact ⟨rfl, rfl, rfl, rfl, rfl⟩

/-- A terminal transition other than a success, followed by statements that do not matter here. -/
private theorem endRun_effect {tx : Tx} {sources : List RunStatus} {finish : Run → Run}
    {type : RunEventType} {payload : Dict} {eventSeq : Option ℕ} {changed : Bool} {db'' : Db}
    (h : endRun sources finish type payload eventSeq now db = .ok (db', changed))
    (status : RunStatus) (hsources : ∀ s ∈ sources, s.isTerminal = false)
    (hstatus : ∀ run, (finish run).status = status) (hne : status ≠ .succeeded)
    (htype : status.terminalEvent = some type) (hlease : ∀ run, (finish run).leaseExpiresAt = none)
    (hseq : eventSeq.getD (getNextRunEventSeq db) = tx.terminalSeq db)
    (hends : tx.endsRun = true)
    (hqueued : (∃ now, tx = .cancelOwnedRun now) → sources = [.queued])
    (hsame : SameLifecycle db' db'') : tx.Effect db db'' := by
  obtain ⟨hs, hl, he, hm, hd⟩ := hsame
  rcases endRun_eq_ok h with ⟨-, rfl, -⟩ | ⟨-, hmem, row, happend, hrow, -, hrowseq, rfl⟩
  · exact .quiet hs (.inl hl) he hm hd
  · refine .ended row hends (hsources _ hmem) (fun hcancel => ?_) ?_ (hl.trans (hlease _))
      ⟨he.trans happend.events, happend.positive, happend.fresh⟩ (hrowseq.trans hseq) ?_ (.inl hd)
    · rw [hqueued hcancel] at hmem
      exact List.mem_singleton.mp hmem
    · rw [hs, hstatus, hrow, htype]
    · rw [hm, hs, hstatus, if_neg hne]
      rfl

private theorem markRunCancelled_effect {tx : Tx} {seq : ℕ} {changed : Bool} {db'' : Db}
    (hseq : seq = tx.terminalSeq db) (hends : tx.endsRun = true)
    (htx : ∀ now, tx ≠ .cancelOwnedRun now)
    (h : markRunCancelled (some seq) now db = .ok (db', changed))
    (hsame : SameLifecycle db' db'') : tx.Effect db db'' :=
  endRun_effect h .cancelled (by decide) (fun _ => rfl) (by decide) rfl (fun _ => rfl)
    hseq hends (fun ⟨now, heq⟩ => absurd heq (htx now)) hsame

private theorem markRunCancelledIfCancelling_effect {tx : Tx} {seq : ℕ} {changed : Bool}
    {db'' : Db} (hseq : seq = tx.terminalSeq db) (hends : tx.endsRun = true)
    (htx : ∀ now, tx ≠ .cancelOwnedRun now)
    (h : markRunCancelledIfCancelling (some seq) now db = .ok (db', changed))
    (hsame : SameLifecycle db' db'') : tx.Effect db db'' :=
  endRun_effect h .cancelled (by decide) (fun _ => rfl) (by decide) rfl (fun _ => rfl)
    hseq hends (fun ⟨now, heq⟩ => absurd heq (htx now)) hsame

private theorem markRunFailed_effect {tx : Tx} {code message : String} {seq : ℕ} {changed : Bool}
    {db'' : Db} (hseq : seq = tx.terminalSeq db) (hends : tx.endsRun = true)
    (htx : ∀ now, tx ≠ .cancelOwnedRun now)
    (h : markRunFailed code message (some seq) now db = .ok (db', changed))
    (hsame : SameLifecycle db' db'') : tx.Effect db db'' :=
  endRun_effect h .failed (by decide) (fun _ => rfl) (by decide) rfl (fun _ => rfl)
    hseq hends (fun ⟨now, heq⟩ => absurd heq (htx now)) hsame

/-- A transition that did not take place left the database alone. -/
private theorem eq_of_endRun_unchanged {sources : List RunStatus} {finish : Run → Run}
    {type : RunEventType} {payload : Dict} {eventSeq : Option ℕ}
    (h : endRun sources finish type payload eventSeq now db = .ok (db', false)) : db' = db := by
  rcases endRun_eq_ok h with ⟨-, heq, -⟩ | ⟨htrue, -⟩
  · exact heq
  · cases htrue

private theorem cancelOwnedRun_effect (h : cancelOwnedRun now db = .ok db') :
    (Tx.cancelOwnedRun now).Effect db db' := by
  unfold cancelOwnedRun at h
  split at h
  · obtain ⟨⟨db₁, changed⟩, hend, hok⟩ := bind_eq_ok_iff.mp h
    cases hok
    exact endRun_effect hend .cancelled (by decide) (fun _ => rfl) (by decide) rfl (fun _ => rfl)
      rfl rfl (fun _ => rfl) ⟨rfl, rfl, rfl, rfl, rfl⟩
  · split at h
    · rename_i hrequest
      cases h
      exact .requested hrequest rfl rfl rfl rfl rfl
    · cases h
      exact .quiet rfl (.inl rfl) rfl rfl rfl

private theorem recoverExpiredRuns_effect {draft : Option RunDraft} {probe : StreamProbe} {gap : ℕ}
    {r : Db × Bool} (h : recoverExpiredRuns draft probe gap now db = .ok r) :
    (Tx.recoverExpiredRuns draft probe gap now).Effect db r.1 := by
  unfold recoverExpiredRuns at h
  split at h
  · obtain ⟨⟨db₁, changed⟩, hfail, hok⟩ := bind_eq_ok_iff.mp h
    have hr := Except.ok.inj hok
    cases changed with
    | false =>
      subst hr
      exact markRunFailed_effect rfl rfl (fun _ => Tx.noConfusion) hfail ⟨rfl, rfl, rfl, rfl, rfl⟩
    | true =>
      -- the draft goes with the transition
      subst hr
      rcases endRun_eq_ok hfail with ⟨hfalse, -⟩ | ⟨-, hmem, row, happend, hrow, -, hseq, rfl⟩
      · cases hfalse
      · refine .ended row rfl ?_ (fun ⟨_, heq⟩ => Tx.noConfusion heq) ?_ rfl
          ⟨happend.events, happend.positive, happend.fresh⟩ hseq rfl (.inr rfl)
        · exact (by decide : ∀ s ∈ failedFromStatuses, s.isTerminal = false) _ hmem
        · rw [hrow]
          rfl
  · cases h
    exact .quiet rfl (.inl rfl) rfl rfl rfl

/-- The event that a transaction returns is in the log. -/
def Logged (db : Db) (event : Option RunEvent) : Prop :=
  ∀ e ∈ event, ∃ row ∈ db.events, row.toRunEvent = e

/-- A transition that took place has left its event in the log. -/
private theorem logged_of_endRun {sources : List RunStatus} {finish : Run → Run}
    {type : RunEventType} {payload : Dict} {seq : ℕ}
    (h : endRun sources finish type payload (some seq) now db = .ok (db', true)) :
    Logged db' (some ⟨seq, type, payload⟩) := by
  rintro _ ⟨⟩
  rcases endRun_eq_ok h with ⟨hfalse, -⟩ | ⟨-, -, row, happend, htype, hpayload, hseq, -⟩
  · cases hfalse
  · refine ⟨row, ?_, ?_⟩
    · rw [happend.events]
      exact List.mem_append_right _ (List.mem_singleton_self row)
    · obtain ⟨⟨s, t, p⟩, created⟩ := row
      cases htype
      cases hpayload
      cases hseq
      rfl

private theorem Logged.timed {event : Option RunEvent} (h : Logged db event) (timing : Dict) :
    Logged (recordRunTiming timing db) event := h

private theorem Logged.persisted {event : Option RunEvent} {finalMessageId : Option ℕ}
    {messages : List Message} (h : Logged db event)
    (hpersist : persistTranscript finalMessageId messages db = .ok db') (timing : Dict) :
    Logged (recordRunTiming timing db') event := by
  obtain ⟨rows, rfl⟩ := persistTranscript_eq_ok hpersist
  exact h

/-- `_finalize_result` has an effect, and returns the terminal event it has logged. -/
theorem finalizeResult_spec {outcome : StreamOutcome} {metadata : Option Dict} {timing : Dict}
    {r : Db × Option RunEvent} (h : finalizeResult outcome metadata timing now db = .ok r) :
    (Tx.finalizeResult outcome metadata timing now).Effect db r.1 ∧ Logged r.1 r.2 := by
  unfold finalizeResult at h
  dsimp only at h
  split at h
  · -- a success, unless the run is being cancelled
    obtain ⟨⟨db₁, changed⟩, hsucceed, hrest⟩ := bind_eq_ok_iff.mp h
    cases changed with
    | true =>
      obtain ⟨final, -, hfinal⟩ := bind_eq_ok_iff.mp hrest
      obtain ⟨db₂, hpersist, hok⟩ := bind_eq_ok_iff.mp hfinal
      cases hok
      have hlogged := logged_of_endRun hsucceed
      obtain ⟨transcript, rfl⟩ := persistTranscript_eq_ok hpersist
      rcases endRun_eq_ok hsucceed with ⟨hfalse, -⟩ | ⟨-, hmem, row, happend, hrow, -, hseq, rfl⟩
      · cases hfalse
      · refine ⟨.ended row rfl ?_ (fun ⟨_, heq⟩ => Tx.noConfusion heq) ?_ rfl
          ⟨happend.events, happend.positive, happend.fresh⟩ hseq ?_ (.inl rfl), hlogged⟩
        · exact (by decide : ∀ s ∈ succeededFromStatuses, s.isTerminal = false) _ hmem
        · rw [hrow]
          rfl
        · exact List.length_append
    | false =>
      obtain rfl := eq_of_endRun_unchanged hsucceed
      obtain ⟨⟨db₂, cancelled⟩, hcancel, hok⟩ := bind_eq_ok_iff.mp hrest
      cases cancelled <;> cases hok
      · exact ⟨markRunCancelledIfCancelling_effect rfl rfl (fun _ => Tx.noConfusion) hcancel
          ⟨rfl, rfl, rfl, rfl, rfl⟩, nofun⟩
      · exact ⟨markRunCancelledIfCancelling_effect rfl rfl (fun _ => Tx.noConfusion) hcancel
          ⟨rfl, rfl, rfl, rfl, rfl⟩, (logged_of_endRun hcancel).timed timing⟩
  · -- the run was cancelled while its answer was streamed
    obtain ⟨⟨db₁, changed⟩, hcancel, hrest⟩ := bind_eq_ok_iff.mp h
    cases changed with
    | true =>
      obtain ⟨db₂, hpersist, hok⟩ := bind_eq_ok_iff.mp hrest
      cases hok
      exact ⟨markRunCancelled_effect rfl rfl (fun _ => Tx.noConfusion) hcancel
        (.of_persistTranscript hpersist timing),
          (logged_of_endRun hcancel).persisted hpersist timing⟩
    | false =>
      cases hrest
      exact ⟨markRunCancelled_effect rfl rfl (fun _ => Tx.noConfusion) hcancel
        ⟨rfl, rfl, rfl, rfl, rfl⟩, nofun⟩
  · -- a failure, unless the run is being cancelled
    obtain ⟨⟨db₁, cancelled⟩, hcancel, hrest⟩ := bind_eq_ok_iff.mp h
    cases cancelled with
    | true =>
      obtain ⟨db₂, hpersist, hok⟩ := bind_eq_ok_iff.mp hrest
      cases hok
      exact ⟨markRunCancelledIfCancelling_effect rfl rfl (fun _ => Tx.noConfusion) hcancel
        (.of_persistTranscript hpersist timing),
          (logged_of_endRun hcancel).persisted hpersist timing⟩
    | false =>
      obtain rfl := eq_of_endRun_unchanged hcancel
      obtain ⟨⟨db₂, changed⟩, hfail, hlast⟩ := bind_eq_ok_iff.mp hrest
      cases changed with
      | true =>
        obtain ⟨db₃, hpersist, hok⟩ := bind_eq_ok_iff.mp hlast
        cases hok
        exact ⟨markRunFailed_effect rfl rfl (fun _ => Tx.noConfusion) hfail
          (.of_persistTranscript hpersist timing),
            (logged_of_endRun hfail).persisted hpersist timing⟩
      | false =>
        cases hlast
        exact ⟨markRunFailed_effect rfl rfl (fun _ => Tx.noConfusion) hfail
          ⟨rfl, rfl, rfl, rfl, rfl⟩, nofun⟩

/-- `_mark_failed_or_cancelled_if_cancelling`, likewise. -/
theorem markFailedOrCancelled_spec {code message : String} {eventSeq : ℕ} {timing : Dict}
    {r : Db × Option RunEvent}
    (h : markFailedOrCancelledIfCancelling code message eventSeq timing now db = .ok r) :
    (Tx.markFailedOrCancelled code message eventSeq timing now).Effect db r.1 ∧
      Logged r.1 r.2 := by
  obtain ⟨⟨db₁, cancelled⟩, hcancel, hrest⟩ := bind_eq_ok_iff.mp h
  cases cancelled with
  | true =>
    cases hrest
    exact ⟨markRunCancelledIfCancelling_effect rfl rfl (fun _ => Tx.noConfusion) hcancel
      ⟨rfl, rfl, rfl, rfl, rfl⟩, (logged_of_endRun hcancel).timed timing⟩
  | false =>
    obtain rfl := eq_of_endRun_unchanged hcancel
    obtain ⟨⟨db₂, failed⟩, hfail, hlast⟩ := bind_eq_ok_iff.mp hrest
    cases failed <;> cases hlast
    · exact ⟨markRunFailed_effect rfl rfl (fun _ => Tx.noConfusion) hfail
        ⟨rfl, rfl, rfl, rfl, rfl⟩, nofun⟩
    · exact ⟨markRunFailed_effect rfl rfl (fun _ => Tx.noConfusion) hfail
        ⟨rfl, rfl, rfl, rfl, rfl⟩, (logged_of_endRun hfail).timed timing⟩

/-- The database component of a successful statement that also returns a result. -/
private theorem exists_of_map_fst {β : Type} {f : β → Db} {x : Except DbError β}
    (h : x.map f = .ok db') : ∃ r, x = .ok r ∧ f r = db' := by
  cases x with
  | error => cases h
  | ok r => exact ⟨r, rfl, Except.ok.inj h⟩

/-- **Inversion.** Every transaction that commits has one of the listed effects. -/
theorem Tx.exec_effect {tx : Tx} (h : tx.exec db = .ok db') : tx.Effect db db' := by
  cases tx with
  | claim =>
    obtain ⟨r, hr, rfl⟩ := exists_of_map_fst h
    exact claim_effect hr
  | markStreaming =>
    cases h
    exact markStreaming_effect
  | sinkEmit =>
    obtain ⟨r, hr, rfl⟩ := exists_of_map_fst h
    exact sinkEmit_effect hr
  | renewLease =>
    cases h
    exact renewLease_effect
  | cancelOwnedRun => exact cancelOwnedRun_effect h
  | finalizeResult =>
    obtain ⟨r, hr, rfl⟩ := exists_of_map_fst h
    exact (finalizeResult_spec hr).1
  | markFailedOrCancelled =>
    obtain ⟨r, hr, rfl⟩ := exists_of_map_fst h
    exact (markFailedOrCancelled_spec hr).1
  | recoverExpiredRuns =>
    obtain ⟨r, hr, rfl⟩ := exists_of_map_fst h
    exact recoverExpiredRuns_effect hr
  | upsertRunDraft =>
    simp only [Tx.exec, IChat.upsertRunDraft] at h
    split at h
    · cases h
    · cases h
      exact .draft _ rfl (.inl ⟨_, _, _, _, rfl⟩)
  | deleteRunDraft =>
    cases h
    exact .draft none rfl (.inr rfl)

namespace Tx.Effect

variable {tx : Tx}

/-- The log is unchanged or has one new row: the start event of a claim, the terminal event of a
run that was active, or the event a sink was given. -/
theorem rows (h : tx.Effect db db') :
    db'.events = db.events ∨ ∃ row, RowAppended db db' row ∧
      (row.type = .runStarted ∧ db.run.status = .queued ∧ row.seq = getNextRunEventSeq db ∧
          (∃ workerId lease now, tx = .claim workerId lease now) ∨
        row.type.isTerminal = true ∧ tx.endsRun = true ∧ db.run.status.isTerminal = false ∧
          row.seq = tx.terminalSeq db ∧ ((∃ now, tx = .cancelOwnedRun now) →
            db.run.status = .queued) ∨
        ∃ sink event now, tx = .sinkEmit sink event now ∧ row.type.isDelta = false ∧
          row.toRunEvent = event.toRunEvent ∧
          (sink.streamingStarted = true ∨ db.run.status = .started)) := by
  cases h with
  | quiet _ _ hevents => exact .inl hevents
  | draft draft heq =>
    subst heq
    exact .inl rfl
  | claimed row hqueued _ happend htype hseq _ _ htx =>
    exact .inr ⟨row, happend, .inl ⟨htype, hqueued, hseq, htx⟩⟩
  | streaming _ _ hevents =>
    rcases hevents with hevents | ⟨sink, event, now, row, htx, hdelta, hrow, happend, hguard⟩
    · exact .inl hevents
    · have htype : row.type = event.type := congrArg RunEvent.type hrow
      exact .inr ⟨row, happend,
        .inr (.inr ⟨sink, event, now, htx, htype ▸ hdelta, hrow, hguard⟩)⟩
  | requested _ _ _ hevents => exact .inl hevents
  | ended row hends hactive hqueued hterminal _ happend hseq =>
    have htype := RunStatus.isTerminal_of_terminalEvent hterminal
    exact .inr ⟨row, happend, .inr (.inl ⟨htype, hends, hactive, hseq, hqueued⟩)⟩

theorem events_subset (h : tx.Effect db db') {e : RunEventResponse} (he : e ∈ db.events) :
    e ∈ db'.events := by
  rcases h.rows with hevents | ⟨row, happend, -⟩
  · rwa [hevents]
  · rw [happend.events]
    exact List.mem_append_left _ he

/-- Only the draft sink writes the draft; ending a run may delete it. -/
theorem draft_eq (h : tx.Effect db db')
    (hupsert : ∀ seq snapshot events now, tx ≠ .upsertRunDraft seq snapshot events now) :
    db'.draft = db.draft ∨ db'.draft = none := by
  cases h with
  | quiet _ _ _ _ hdraft => exact .inl hdraft
  | draft draft heq htx =>
    rcases htx with ⟨seq, snapshot, events, now, htx⟩ | htx
    · exact absurd htx (hupsert _ _ _ _)
    · subst heq htx
      exact .inr rfl
  | claimed _ _ _ _ _ _ _ hdraft => exact .inl hdraft
  | streaming _ _ _ _ hdraft => exact .inl hdraft
  | requested _ _ _ _ _ hdraft => exact .inl hdraft
  | ended _ _ _ _ _ _ _ _ _ hdraft => exact hdraft

/-- A run that has left the queue never returns to it. -/
theorem status_ne_queued (h : tx.Effect db db') (hne : db.run.status ≠ .queued) :
    db'.run.status ≠ .queued := by
  cases h with
  | quiet hstatus => rwa [hstatus]
  | draft draft heq =>
    subst heq
    exact hne
  | claimed _ hqueued => exact absurd hqueued hne
  | streaming hstatus =>
    rcases hstatus with hstatus | ⟨-, hstreaming⟩
    · rwa [hstatus]
    · rw [hstreaming]
      decide
  | requested _ hcancelling =>
    rw [hcancelling]
    decide
  | ended _ _ _ _ hterminal =>
    intro hqueued
    rw [hqueued] at hterminal
    cases hterminal

end Tx.Effect

end Effect

end IChat
