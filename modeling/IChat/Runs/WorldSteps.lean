import IChat.Runs.WorldInvariant

/-!
# What one step of an actor can do

Inversion lemmas for `World.step`, one for each component the readers look at. They are stated
over states that satisfy `WorldInv` and are the only facts about single steps that the theorems
about the readers use:

* `World.step_db`: the rows stay, or the draft is written, or one transaction commits;
* `World.step_rows`: the log stays or grows by one row of a known kind (`RowKind`);
* `World.step_emitted`: the worker emits nothing, or one event with the next number;
* `World.step_draft`: the draft row stays, disappears or becomes a checkpoint;
* `World.step_recovery`: a recovery begins, has its answer, ends, or keeps its lock.
-/

namespace IChat

variable {cfg : Settings} {w w' : World} {a : Action}

/-- The transaction that an action runs. -/
inductive Issues (cfg : Settings) (w : World) : Action → Tx → Prop where
  | claim {workerId leaseSeconds now} :
      Issues cfg w (.claim workerId leaseSeconds now) (.claim workerId leaseSeconds now)
  | sinkEmit {e now} (pending : w.worker.pendingPostgres = some e) :
      Issues cfg w (.postgresSink true now) (.sinkEmit w.worker.postgresSink e now)
  | renewLease {leaseSeconds now} :
      Issues cfg w (.heartbeat true leaseSeconds now)
        (.renewLease (some w.worker.workerId) leaseSeconds now)
  | finalize {outcome metadata timing now} (phase : w.worker.phase = .finalizing outcome) :
      Issues cfg w (.finalize true metadata timing now)
        (.finalizeResult outcome metadata timing now)
  | markFailed {code message eventSeq deletesDraft timing now}
      (phase : w.worker.phase = .failing code message eventSeq deletesDraft) :
      Issues cfg w (.markFailed true timing now)
        (.markFailedOrCancelled code message eventSeq timing now)
  | cancelOwnedRun {now} : Issues cfg w (.cancelOwnedRun now) (.cancelOwnedRun now)
  | recover {now draft probe} (recovery : w.recovery = some ⟨now, draft, some probe⟩) :
      Issues cfg w .recover (.recoverExpiredRuns draft probe cfg.uncertainStreamSeqGap now)

/-- What a step does to the database. -/
inductive DbStep (cfg : Settings) (w w' : World) (a : Action) : Prop where
  | same (eq : w'.db = w.db)
  | draft (draft : Option RunDraft) (eq : w'.db = { w.db with draft := draft })
      (checkpoint : ∀ d ∈ draft, IsCheckpoint cfg.runStreamMaxlen w'.worker.accepted d)
  | tx (tx : Tx) (issues : Issues cfg w a tx) (exec : tx.exec w.db = .ok w'.db)

theorem DbStep.of_stored {db : Db} (hdb : DraftStored cfg.runStreamMaxlen
    w'.worker.accepted w.db db)
    (heq : w'.db = db) : DbStep cfg w w' a := by
  rcases hdb with hsame | ⟨d, hd, hsame⟩
  · exact .same (heq.trans hsame)
  · refine .draft (some d) (heq.trans hsame) fun d' hd' => ?_
    obtain rfl : d = d' := Option.some.inj hd'
    exact hd

private theorem dbStep_of_commit {tx : Tx} (hissues : Issues cfg w a tx)
    (heq : w'.db = commit w.db tx) : DbStep cfg w w' a := by
  unfold commit at heq
  split at heq
  · rename_i db' hexec
    exact .tx tx hissues (heq ▸ hexec)
  · exact .same heq

theorem World.step_db (h : WorldInv cfg w) (hstep : w.step cfg a = some w') :
    DbStep cfg w w' a := by
  replace hstep := World.move_of_step hstep
  cases a with
  | claim =>
    simp only [World.move, World.workerStep] at hstep
    split at hstep <;> cases hstep
    · rename_i hclaim
      exact .tx _ .claim (by simp [Tx.exec, hclaim, Except.map])
    · exact .same rfl
  | prepare | listPersisted | redisSink | cancelHint | endStream | agentRaises | publishTerminal =>
    -- the database is not part of what these do
    simp only [World.move, World.workerStep] at hstep
    split at hstep <;> cases hstep
    exact .same rfl
  | publishPersisted =>
    simp only [World.move, World.workerStep] at hstep
    split at hstep
    · split at hstep <;> cases hstep <;> exact .same rfl
    · cases hstep
  | startStreaming =>
    simp only [World.move, World.workerStep] at hstep
    split at hstep <;> cases hstep <;> exact .same rfl
  | emit =>
    simp only [World.move, World.workerStep] at hstep
    split at hstep
    · split at hstep <;> cases hstep
      exact .same rfl
    · cases hstep
  | postgresSink ok =>
    simp only [World.move, World.workerStep] at hstep
    split at hstep
    · rename_i e hpending
      split at hstep <;> cases hstep
      · rename_i r hemit
        cases ok with
        | false => cases hemit
        | true =>
          rw [if_pos rfl] at hemit
          exact .tx _ (.sinkEmit hpending) (by simp [Tx.exec, hemit, Except.map])
      · exact .same rfl
    · cases hstep
  | draftSink ok now =>
    simp only [World.move, World.workerStep] at hstep
    split at hstep <;> cases hstep
    rename_i e hpending
    cases hb : w.worker.draftSink.backgroundError with
    | true =>
      refine .same ?_
      simp [DraftCheckpointSink.emit_of_backgroundError hb]
    | false =>
      have hfolded : w.worker.draftSink.Folded cfg.draft.maxEvents w.worker.accepted := h.folded
      have hspec : DraftStored cfg.runStreamMaxlen (w.worker.accepted ++ [e.toRunEvent]) w.db
          (w.worker.draftSink.emit cfg.draft e ok now w.db).db :=
        (DraftCheckpointSink.emit_spec hb hfolded).2
      refine DbStep.of_stored ?_ rfl
      split <;> simpa [hb, Executor.raise] using hspec
  | draftTimer ok now =>
    simp only [World.move, World.workerStep] at hstep
    split at hstep <;> cases hstep
    exact DbStep.of_stored (DraftCheckpointSink.timerFires_spec h.folded ok now w.db).2 rfl
  | heartbeat ok =>
    simp only [World.move, World.workerStep] at hstep
    split at hstep
    · cases ok with
      | true =>
        cases hstep
        exact .tx _ .renewLease rfl
      | false =>
        cases hstep
        exact .same rfl
    · cases hstep
  | flushSinks ok now | closeSinks ok now | flushDraft ok now =>
    simp only [World.move, World.workerStep] at hstep
    split at hstep <;> cases hstep
    exact DbStep.of_stored (DraftCheckpointSink.flush_spec h.folded ok now w.db).2 rfl
  | finalize ok =>
    simp only [World.move, World.workerStep] at hstep
    split at hstep
    · rename_i outcome hphase
      split at hstep <;> cases hstep
      · rename_i db terminal hfinal
        cases ok with
        | false => cases hfinal
        | true =>
          rw [if_pos rfl] at hfinal
          exact .tx _ (.finalize hphase) (by simp [Tx.exec, hfinal, Except.map])
      · exact .same rfl
    · cases hstep
  | markFailed ok =>
    simp only [World.move, World.workerStep] at hstep
    split at hstep
    · rename_i code message eventSeq deletesDraft hphase
      split at hstep <;> cases hstep
      · rename_i db terminal hfail
        cases ok with
        | false => cases hfail
        | true =>
          rw [if_pos rfl] at hfail
          exact .tx _ (.markFailed hphase) (by simp [Tx.exec, hfail, Except.map])
      · exact .same rfl
    · cases hstep
  | deleteDraft ok =>
    simp only [World.move, World.workerStep] at hstep
    split at hstep <;> cases hstep
    cases ok with
    | true => exact .draft none rfl fun d hd => by cases hd
    | false => exact .same rfl
  | cancelOwnedRun =>
    cases hstep
    exact dbStep_of_commit .cancelOwnedRun rfl
  | beginRecovery | probeStream | abandonRecovery | broadcastTerminal =>
    simp only [World.move, World.workerStep, World.otherStep] at hstep
    split at hstep <;> cases hstep
    exact .same rfl
  | recover =>
    simp only [World.move, World.workerStep, World.otherStep] at hstep
    split at hstep <;> cases hstep
    rename_i hrecovery
    exact dbStep_of_commit (.recover hrecovery) rfl
  | trimStream | expireStream =>
    cases hstep
    exact .same rfl

/-! ### The event log -/

/-- The number of the terminal event that the recovery under way is about to write. -/
def World.recoverySeq (cfg : Settings) (w : World) : Option ℕ :=
  w.recovery.bind fun r => r.probe.map fun probe =>
    recoveredLatestSeq probe cfg.uncertainStreamSeqGap { w.db with draft := r.draft } + 1

theorem World.lt_recoverySeq {seq : ℕ} (h : w.recoverySeq cfg = some seq) {row : RunEventResponse}
    (hrow : row ∈ w.db.events) : row.seq < seq := by
  obtain ⟨r, -, h⟩ := Option.bind_eq_some_iff.mp h
  obtain ⟨probe, -, rfl⟩ := Option.map_eq_some_iff.mp h
  have hle := @seq_le_recoveredLatestSeq probe cfg.uncertainStreamSeqGap
    { w.db with draft := r.draft } row hrow
  omega

/-- The row a step may add to the log. -/
inductive RowKind (cfg : Settings) (w : World) (a : Action) (row : RunEventResponse) : Prop where
  /-- The start event, by the claim of a run nobody has. -/
  | started (type : row.type = .runStarted) (queued : w.db.run.status = .queued)
      (unclaimed : w.worker.phase = .idle) (seq : row.seq = getNextRunEventSeq w.db)
  /-- The event pending at the worker's database sink, which streams already or finds the run
  started. -/
  | semantic (e : SinkEvent) (now : Time) (action : a = .postgresSink true now)
      (pending : w.worker.pendingPostgres = some e) (eq : row.toRunEvent = e.toRunEvent)
      (type : row.type.isDelta = false)
      (guard : w.worker.postgresSink.streamingStarted = true ∨ w.db.run.status = .started)
  /-- The terminal event of a run that was active: by the worker, with the number after its last
  event; by recovery, above what it knows; or by a client, while no worker has the run. -/
  | ended (terminal : row.type.isTerminal = true) (active : w.db.run.status.isTerminal = false)
      (seq : row.seq = w.worker.latestSeq + 1 ∧ w.worker.phase.isPrepared = true ∨
        (a = .recover ∧ w.recoverySeq cfg = some row.seq) ∨
        w.worker.phase = .idle ∧ row.seq = getNextRunEventSeq w.db)

/-- While the run is queued no worker has it. -/
theorem WorldInv.idle_of_queued (h : WorldInv cfg w) (hqueued : w.db.run.status = .queued) :
    w.worker.phase = .idle := by
  by_contra hne
  exact h.leftQueue hne hqueued

theorem World.step_rows (h : WorldInv cfg w) (hstep : w.step cfg a = some w') :
    w'.db.events = w.db.events ∨
      ∃ row, RowAppended w.db w'.db row ∧ RowKind cfg w a row := by
  rcases World.step_db h hstep with heq | ⟨draft, heq, -⟩ | ⟨tx, hissues, hexec⟩
  · rw [heq]
    exact .inl rfl
  · rw [heq]
    exact .inl rfl
  · have heff := Tx.exec_effect hexec
    rcases heff.rows with hsame | ⟨row, happend, hkind⟩
    · exact .inl hsame
    · refine .inr ⟨row, happend, ?_⟩
      rcases hkind with ⟨htype, hqueued, hseq, -⟩ | ⟨hterminal, hends, hactive, hseq, hqueued⟩ |
        ⟨sink, event, now, rfl, hdelta, hrow, hguard⟩
      · exact .started htype hqueued (h.idle_of_queued hqueued) hseq
      · refine .ended hterminal hactive ?_
        have hphase := h.phase
        unfold PhaseInv at hphase
        cases hissues with
        | finalize hfinalizing =>
          rw [hfinalizing] at hphase
          exact .inl ⟨hseq.trans (congrArg (· + 1) hphase), by rw [hfinalizing]; rfl⟩
        | markFailed hfailing =>
          rw [hfailing] at hphase
          exact .inl ⟨hseq.trans hphase, by rw [hfailing]; rfl⟩
        | recover hrecovery =>
          refine .inr (.inl ⟨rfl, ?_⟩)
          rw [World.recoverySeq, hrecovery, hseq]
          rfl
        | cancelOwnedRun => exact .inr (.inr ⟨h.idle_of_queued (hqueued ⟨_, rfl⟩), hseq⟩)
        | claim | sinkEmit | renewLease => cases hends
      · cases hissues with
        | sinkEmit hpending => exact .semantic event now rfl hpending hrow hdelta hguard

/-- Rows are only ever added. -/
theorem World.events_subset_of_step (h : WorldInv cfg w) (hstep : w.step cfg a = some w')
    {e : RunEventResponse} (he : e ∈ w.db.events) : e ∈ w'.db.events := by
  rcases World.step_rows h hstep with hsame | ⟨row, happend, -⟩
  · rwa [hsame]
  · rw [happend.events]
    exact List.mem_append_left _ he

/-! ### Emitted events -/

/-- The worker's history changes only when it emits, and then by one event with the next number;
at that moment no sink is busy. -/
theorem World.step_emitted (hstep : w.step cfg a = some w') :
    w'.worker.emitted = w.worker.emitted ∨
      ∃ (e : SinkEvent) (event : AgentEvent), a = .emit event ∧ w.worker.phase = .streaming ∧
        toRunEvent event (w.worker.latestSeq + 1) cfg.toolBackendNames = some e ∧
        w.worker.fanoutDone = true ∧
        w'.worker.emitted = w.worker.emitted ++ [e.toRunEvent] := by
  replace hstep := World.move_of_step hstep
  cases a with
  | emit event =>
    simp only [World.move, World.workerStep] at hstep
    split at hstep
    · rename_i henabled
      split at hstep <;> cases hstep
      rename_i e he
      exact .inr ⟨e, event, rfl, henabled.1, he, henabled.2.2, rfl⟩
    · cases hstep
  | _ =>
    left
    simp only [World.move, World.workerStep, World.otherStep] at hstep
    repeat' split at hstep
    all_goals cases hstep
    all_goals rfl

/-- What the draft sink has accepted stays accepted. -/
theorem World.accepted_isPrefix_of_step (hstep : w.step cfg a = some w') :
    w.worker.accepted <+: w'.worker.accepted := by
  replace hstep := World.move_of_step hstep
  cases a with
  | draftSink =>
    simp only [World.move, World.workerStep] at hstep
    split at hstep <;> cases hstep
    cases w.worker.draftSink.backgroundError <;> split <;>
      simp [Executor.raise]
  | _ =>
    simp only [World.move, World.workerStep, World.otherStep] at hstep
    repeat' split at hstep
    all_goals cases hstep
    all_goals exact List.prefix_rfl

/-- The draft row stays, disappears, or becomes a checkpoint of what the draft sink has
accepted. -/
theorem World.step_draft (h : WorldInv cfg w) (hstep : w.step cfg a = some w') {d : RunDraft}
    (hd : d ∈ w'.db.draft) :
    d ∈ w.db.draft ∨ IsCheckpoint cfg.runStreamMaxlen w'.worker.accepted d := by
  rcases World.step_db h hstep with heq | ⟨draft, heq, hcheckpoint⟩ | ⟨tx, hissues, hexec⟩
  · exact .inl (heq ▸ hd)
  · rw [heq] at hd
    exact .inr (hcheckpoint d hd)
  · have hupsert : ∀ seq snapshot events now, tx ≠ .upsertRunDraft seq snapshot events now := by
      intro _ _ _ _ htx
      subst htx
      cases hissues
    rcases (Tx.exec_effect hexec).draft_eq hupsert with hsame | hnone
    · exact .inl (hsame ▸ hd)
    · rw [hnone] at hd
      cases hd

/-! ### Recovery -/

/-- A recovery is over, or it has just begun, or it has its answer from the stream, or it waits and
keeps the row of the run and the log as they are. -/
theorem World.step_recovery (hstep : w.step cfg a = some w') :
    w'.recovery = none ∨
      (∃ now, leaseExpired now w.db = true ∧
        w' = { w with recovery := some ⟨now, w.db.draft, none⟩ }) ∨
      (∃ access r, a = .probeStream access ∧ w.recovery = some r ∧
        w' = { w with recovery := some { r with probe := some (w.stream.probe access) } }) ∨
      w'.recovery = w.recovery ∧ w'.db.run = w.db.run ∧ w'.db.events = w.db.events ∧
        ∀ access, a ≠ .probeStream access := by
  obtain ⟨hmove, hlock⟩ := Option.filter_eq_some_iff.mp hstep
  have hlocked : w'.recovery = w.recovery →
      w'.recovery = none ∨ w'.db.run = w.db.run ∧ w'.db.events = w.db.events := fun hsame => by
    rw [World.respectsLock, hsame] at hlock
    rw [hsame]
    simpa using hlock
  cases a with
  | beginRecovery now =>
    simp only [World.move, World.workerStep, World.otherStep] at hmove
    split at hmove <;> cases hmove
    rename_i hbegin
    exact .inr (.inl ⟨now, hbegin.1, rfl⟩)
  | probeStream access =>
    simp only [World.move, World.workerStep, World.otherStep] at hmove
    split at hmove <;> cases hmove
    rename_i hrecovery
    exact .inr (.inr (.inl ⟨access, _, rfl, hrecovery, rfl⟩))
  | recover | abandonRecovery =>
    simp only [World.move, World.workerStep, World.otherStep] at hmove
    split at hmove <;> cases hmove
    exact .inl rfl
  | _ =>
    have hsame : w'.recovery = w.recovery := by
      simp only [World.move, World.workerStep, World.otherStep] at hmove
      repeat' split at hmove
      all_goals cases hmove
      all_goals rfl
    exact (hlocked hsame).imp_right fun hdb =>
      .inr (.inr ⟨hsame, hdb.1, hdb.2, fun _ => by simp⟩)

end IChat
