import IChat.General.StepSystem
import IChat.Runs.EventStream
import IChat.Runs.LifecycleSafety

/-!
# A run and its actors

The system the readers observe: the rows of one run, its Redis stream, the worker that executes
it, and everybody else who writes to either. `World.step` gives one atomic step of one actor, an
interleaving is a list of `Action`s.

The worker is a program counter (`Phase`) with the state of its sinks. The worker hands an event
to its sinks concurrently, so an event it has emitted stays *pending* at each of them until that
sink's own step; the next event is emitted when none is pending. When a sink raises, the worker
leaves the stream at once and the other sinks' calls stay pending.

Recovery reads PostgreSQL, asks the stream and commits in three steps, with the row of the run
locked from the first to the last. Any step may be delayed without bound, and a worker that never
steps again has crashed. Clocks are
arbitrary: every action carries the moment at which its actor believes to act, so a lease may
expire while its worker is alive. Database and Redis calls carry whether they succeed.
-/

namespace IChat

/-- The settings the worker and the recovery loop read, with the bounds the sinks check. -/
structure Settings where
  runStreamMaxlen : ℕ
  draftCheckpointIntervalSeconds : ℕ
  draftCheckpointMaxPendingChars : ℕ
  runStreamMaxlen_pos : 1 ≤ runStreamMaxlen
  draftCheckpointMaxPendingChars_pos : 1 ≤ draftCheckpointMaxPendingChars
  toolBackendNames : List (String × String)

/-- The default settings. -/
def Settings.default : Settings where
  runStreamMaxlen := 2048
  draftCheckpointIntervalSeconds := 3
  draftCheckpointMaxPendingChars := 4096
  runStreamMaxlen_pos := by decide
  draftCheckpointMaxPendingChars_pos := by decide
  toolBackendNames := []

/-- The settings with which the executor builds its draft sink. -/
def Settings.draft (cfg : Settings) : DraftSettings where
  intervalSeconds := cfg.draftCheckpointIntervalSeconds
  maxPendingChars := cfg.draftCheckpointMaxPendingChars
  maxEvents := cfg.runStreamMaxlen
  maxPendingChars_pos := cfg.draftCheckpointMaxPendingChars_pos
  maxEvents_pos := cfg.runStreamMaxlen_pos

/-- The gap recovery leaves when it cannot read the stream. -/
def Settings.uncertainStreamSeqGap (cfg : Settings) : ℕ := cfg.runStreamMaxlen * 2

/-- Where `execute_run` stands. -/
inductive Phase where
  /-- No worker has the run. -/
  | idle
  /-- The run is claimed, nothing has been read. -/
  | claimed
  /-- `_publish_persisted_events`: the rows still to publish, once they are listed; the message of
  the error with which building the agent failed, if it did. -/
  | publishing (queue : Option (List RunEventResponse)) (buildError : Option String)
  /-- Consuming the agent's events. -/
  | streaming
  /-- The agent's stream has ended; the sinks are flushed. -/
  | flushing (outcome : StreamOutcome)
  /-- Before `_finalize_result`. -/
  | finalizing (outcome : StreamOutcome)
  /-- An exception was caught; the sinks are closed. -/
  | closing (message : String)
  /-- Before `_mark_failed_or_cancelled_if_cancelling`. -/
  | failing (code message : String) (eventSeq : ℕ) (deletesDraft : Bool)
  /-- Before `_publish_terminal`. -/
  | publishingTerminal (event : Option RunEvent) (deletesDraft : Bool)
  /-- Before the flush that precedes the deletion of the draft. -/
  | flushingDraft
  /-- Before the deletion of the draft. -/
  | deletingDraft
  /-- `execute_run` has returned or raised. -/
  | finished
  deriving DecidableEq

/-- The worker that executes the run. `emitted` are the events it has handed to its sinks and
`accepted` those the draft sink has taken; the code keeps neither. -/
structure Executor where
  workerId : String
  phase : Phase
  cancel : Bool
  initialSeq : ℕ
  latestSeq : ℕ
  pendingRedis : Option SinkEvent
  pendingPostgres : Option SinkEvent
  pendingDraft : Option SinkEvent
  postgresSink : PostgresEventSink
  draftSink : DraftCheckpointSink
  emitted : List RunEvent
  accepted : List RunEvent
  deriving DecidableEq

/-- Before the run is claimed. -/
def Executor.init : Executor where
  workerId := ""
  phase := .idle
  cancel := false
  initialSeq := 0
  latestSeq := 0
  pendingRedis := none
  pendingPostgres := none
  pendingDraft := none
  postgresSink := ⟨false⟩
  draftSink := .init
  emitted := []
  accepted := []

/-- A recovery under way: the moment at which it found the lease expired, the draft it has read, and
the answer of the stream, once it has one. -/
structure Recovery where
  now : Time
  draft : Option RunDraft
  probe : Option StreamProbe
  deriving DecidableEq

/-- Everything that is shared, the worker, and the recovery that has locked the row of the run. -/
structure World where
  db : Db
  stream : EventStream
  worker : Executor
  recovery : Option Recovery
  /-- A cancel hint has been published for the run. -/
  cancelPublished : Bool
  deriving DecidableEq

/-- A run has been created. -/
def World.init : World where
  db := .init
  stream := .empty
  worker := .init
  recovery := none
  cancelPublished := false

/-- What recovery finds when it asks for the stream's last number. -/
inductive StreamAccess where
  | absent
  | failing
  | readable
  deriving DecidableEq

/-- One step of one actor. `ok` says whether the call the step makes succeeds. -/
inductive Action where
  | claim (workerId : String) (leaseSeconds : ℕ) (now : Time)
  /-- Read the initial number and build the agent. -/
  | prepare (buildError : Option String)
  | listPersisted (ok : Bool)
  | publishPersisted (ok : Bool)
  | startStreaming
  /-- The agent yields an event. -/
  | emit (event : AgentEvent)
  | redisSink (ok : Bool) (now : Time)
  | postgresSink (ok : Bool) (now : Time)
  | draftSink (ok : Bool) (now : Time)
  | draftTimer (ok : Bool) (now : Time)
  | heartbeat (ok : Bool) (leaseSeconds : ℕ) (now : Time)
  /-- The cancel listener is notified. -/
  | cancelHint
  /-- The agent's stream ends. -/
  | endStream (status : StreamStatus) (transcript : List Message) (usage : Option Dict)
      (providerRequestId : Option String) (error : Option (String × String))
  /-- The agent raises an exception that is not a provider error. -/
  | agentRaises (message : String)
  | flushSinks (ok : Bool) (now : Time)
  | closeSinks (ok : Bool) (now : Time)
  | finalize (ok : Bool) (metadata : Option Dict) (timing : Dict) (now : Time)
  | markFailed (ok : Bool) (timing : Dict) (now : Time)
  | publishTerminal (ok : Bool) (now : Time)
  | flushDraft (ok : Bool) (now : Time)
  | deleteDraft (ok : Bool)
  /-- A client cancels the run. -/
  | cancelOwnedRun (now : Time)
  /-- The recovery loop finds the lease expired, locks the row of the run, and reads its numbers. -/
  | beginRecovery (now : Time)
  /-- It asks for the stream's last number. -/
  | probeStream (access : StreamAccess)
  /-- It fails the run and commits. -/
  | recover
  /-- Its transaction is rolled back. -/
  | abandonRecovery
  /-- The cancel route or the recovery loop appends the run's terminal event to the stream. -/
  | broadcastTerminal (now : Time)
  | trimStream (n : ℕ)
  | expireStream

/-- An exception of a sink or of the agent, raised while the agent's events are consumed. -/
def Executor.raise (message : String) (x : Executor) : Executor :=
  { x with cancel := true, phase := if x.phase = .streaming then .closing message else x.phase }

/-- No sink is still busy with the last event. -/
def Executor.fanoutDone (x : Executor) : Bool :=
  x.pendingRedis.isNone && x.pendingPostgres.isNone && x.pendingDraft.isNone

/-- The heartbeat task is running. -/
def Phase.hasHeartbeat : Phase → Bool
  | .streaming | .flushing _ | .closing _ | .failing _ _ _ _ => true
  | _ => false

/-- What recovery's question about the stream returns. -/
def EventStream.probe (s : EventStream) : StreamAccess → StreamProbe
  | .absent => .absent
  | .failing => .failed
  | .readable => .latest s.latestSeq

/-- The terminal event of the log, as it is published. -/
def terminalEventOf (db : Db) : Option RunEvent :=
  ((listRunEventsAfter db 0).reverse.find? fun e => e.type.isTerminal).map
    RunEventResponse.toRunEvent

/-- The steps of the worker. -/
def World.workerStep (cfg : Settings) (w : World) : Action → Option World
  | .claim workerId leaseSeconds now =>
    match claimNextQueuedRun workerId leaseSeconds now w.db with
    | .ok (db, true) =>
      some { w with db := db, worker := { w.worker with workerId := workerId, phase := .claimed } }
    | _ => some w
  | .prepare buildError =>
    if w.worker.phase = .claimed then
      let initialSeq := getNextRunEventSeq w.db - 1
      some { w with worker := { w.worker with
        initialSeq := initialSeq, latestSeq := initialSeq, phase := .publishing none buildError } }
    else none
  | .listPersisted ok =>
    match w.worker.phase with
    | .publishing none buildError =>
      let queue := if ok then listRunEventsAfter w.db 0 else []
      some { w with worker := { w.worker with phase := .publishing (some queue) buildError } }
    | _ => none
  | .publishPersisted ok =>
    match w.worker.phase with
    | .publishing (some (event :: queue)) buildError =>
      match if ok then w.stream.append event.toRunEvent event.createdAt else none with
      | some stream => some { w with
          stream := stream
          worker := { w.worker with phase := .publishing (some queue) buildError } }
      -- the first failure ends the loop
      | none =>
        some { w with worker := { w.worker with phase := .publishing (some []) buildError } }
    | _ => none
  | .startStreaming =>
    match w.worker.phase with
    | .publishing (some []) none => some { w with worker := { w.worker with phase := .streaming } }
    | .publishing (some []) (some message) =>
      some { w with worker := { w.worker with
        phase := .failing "context_build_error" message (w.worker.initialSeq + 1) false } }
    | _ => none
  | .emit event =>
    if w.worker.phase = .streaming ∧ w.worker.cancel = false ∧ w.worker.fanoutDone = true then
      match toRunEvent event (w.worker.latestSeq + 1) cfg.toolBackendNames with
      | some e =>
        some { w with worker := { w.worker with
          latestSeq := w.worker.latestSeq + 1
          pendingRedis := some e
          pendingPostgres := some e
          pendingDraft := some e
          emitted := w.worker.emitted ++ [e.toRunEvent] } }
      | none => none
    else none
  | .redisSink ok now =>
    match w.worker.pendingRedis with
    | some e =>
      -- a failed append drops the event
      let stream := if ok then (w.stream.append e.toRunEvent now).getD w.stream else w.stream
      some { w with stream := stream, worker := { w.worker with pendingRedis := none } }
    | none => none
  | .postgresSink ok now =>
    match w.worker.pendingPostgres with
    | some e =>
      let worker := { w.worker with pendingPostgres := none }
      match if ok then w.worker.postgresSink.emit e now w.db else .error .integrity with
      | .ok r => some { w with
          db := r.db
          worker := { worker with postgresSink := r.sink, cancel := worker.cancel || r.cancel } }
      | .error _ => some { w with worker := worker.raise "event sink failed" }
    | none => none
  | .draftSink ok now =>
    match w.worker.pendingDraft with
    | some e =>
      let r := w.worker.draftSink.emit cfg.draft e ok now w.db
      let worker := { w.worker with
        pendingDraft := none
        draftSink := r.sink
        accepted := if w.worker.draftSink.backgroundError then w.worker.accepted
          else w.worker.accepted ++ [e.toRunEvent] }
      some { w with
        db := r.db, worker := if r.raised then worker.raise "event sink failed" else worker }
    | none => none
  | .draftTimer ok now =>
    if w.worker.draftSink.timer then
      let r := w.worker.draftSink.timerFires ok now w.db
      some { w with
        db := r.db
        worker := { w.worker with
          draftSink := r.sink, cancel := w.worker.cancel || r.raised } }
    else none
  | .heartbeat ok leaseSeconds now =>
    if w.worker.phase.hasHeartbeat then
      if ok then
        let (db, renewed) := renewLease (some w.worker.workerId) leaseSeconds now w.db
        some { w with
          db := db
          worker := { w.worker with
            cancel := w.worker.cancel || !renewed || isCancelling db } }
      else some { w with worker := { w.worker with cancel := true } }
    else none
  | .cancelHint =>
    if w.cancelPublished then some { w with worker := { w.worker with cancel := true } } else none
  | .endStream status transcript usage providerRequestId error =>
    if w.worker.phase = .streaming ∧ w.worker.fanoutDone = true ∧
        (status = .cancelled ↔ w.worker.cancel = true) then
      some { w with worker := { w.worker with
        phase := .flushing
          { status, transcript, lastSeq := w.worker.latestSeq, usage, providerRequestId, error } } }
    else none
  | .agentRaises message =>
    if w.worker.phase = .streaming ∧ w.worker.fanoutDone = true then
      some { w with worker := w.worker.raise message }
    else none
  | .flushSinks ok now =>
    match w.worker.phase with
    | .flushing outcome =>
      let r := w.worker.draftSink.flush ok now w.db
      some { w with
        db := r.db
        worker := { w.worker with
          draftSink := r.sink
          cancel := w.worker.cancel || r.raised
          phase := if r.raised then .closing "event sink failed" else .finalizing outcome } }
    | _ => none
  | .closeSinks ok now =>
    match w.worker.phase with
    | .closing message =>
      -- the exceptions of closing are suppressed, the timer is cancelled in any case
      let r := w.worker.draftSink.flush ok now w.db
      some { w with
        db := r.db
        worker := { w.worker with
          draftSink := { r.sink with timer := false }
          phase := .failing "agent_runtime_error" message (w.worker.latestSeq + 1) true } }
    | _ => none
  | .finalize ok metadata timing now =>
    match w.worker.phase with
    | .finalizing outcome =>
      match if ok then finalizeResult outcome metadata timing now w.db else .error .integrity with
      | .ok (db, terminal) => some { w with
          db := db, worker := { w.worker with phase := .publishingTerminal terminal true } }
      -- the exception leaves `execute_run`
      | .error _ => some { w with worker := { w.worker with phase := .finished } }
    | _ => none
  | .markFailed ok timing now =>
    match w.worker.phase with
    | .failing code message eventSeq deletesDraft =>
      match if ok then markFailedOrCancelledIfCancelling code message eventSeq timing now w.db
          else .error .integrity with
      | .ok (db, terminal) => some { w with
          db := db
          worker := { w.worker with phase := .publishingTerminal terminal deletesDraft } }
      | .error _ => some { w with worker := { w.worker with phase := .finished } }
    | _ => none
  | .publishTerminal ok now =>
    match w.worker.phase with
    | .publishingTerminal terminal deletesDraft =>
      let stream :=
        match terminal with
        | some event => if ok then (w.stream.append event now).getD w.stream else w.stream
        | none => w.stream
      some { w with
        stream := stream
        worker := { w.worker with
          phase := if deletesDraft then .flushingDraft else .finished } }
    | _ => none
  | .flushDraft ok now =>
    if w.worker.phase = .flushingDraft then
      let r := w.worker.draftSink.flush ok now w.db
      some { w with
        db := r.db
        worker := { w.worker with
          draftSink := r.sink, phase := if r.raised then .finished else .deletingDraft } }
    else none
  | .deleteDraft ok =>
    if w.worker.phase = .deletingDraft then
      some { w with
        db := if ok then deleteRunDraft w.db else w.db
        worker := { w.worker with phase := .finished } }
    else none
  | _ => none

/-- The steps of everybody else. -/
def World.otherStep (cfg : Settings) (w : World) : Action → Option World
  | .cancelOwnedRun now =>
    let db := commit w.db (.cancelOwnedRun now)
    some { w with db := db, cancelPublished := w.cancelPublished || isCancelling db }
  | .beginRecovery now =>
    if leaseExpired now w.db = true ∧ w.recovery = none then
      some { w with recovery := some ⟨now, w.db.draft, none⟩ }
    else none
  | .probeStream access =>
    match w.recovery with
    | some ⟨now, draft, none⟩ =>
      some { w with recovery := some ⟨now, draft, some (w.stream.probe access)⟩ }
    | _ => none
  | .recover =>
    match w.recovery with
    | some ⟨now, draft, some probe⟩ =>
      some { w with
        db := commit w.db (.recoverExpiredRuns draft probe cfg.uncertainStreamSeqGap now)
        recovery := none }
    | _ => none
  | .abandonRecovery =>
    match w.recovery with
    | some _ => some { w with recovery := none }
    | none => none
  | .broadcastTerminal now =>
    match terminalEventOf w.db with
    | some event => some { w with stream := (w.stream.append event now).getD w.stream }
    | none => none
  | .trimStream n => some { w with stream := w.stream.trim n }
  | .expireStream => some { w with stream := .empty }
  | _ => none

/-- One step of one actor that does not wait for a lock. -/
def World.move (cfg : Settings) (w : World) (a : Action) : Option World :=
  (w.workerStep cfg a).orElse fun _ => w.otherStep cfg a

/-- From its first statement to its end the recovery holds the lock of the run's row: nobody else
writes the row, or adds an event, which refers to it. -/
def World.respectsLock (w w' : World) : Bool :=
  w.recovery.isNone || w'.recovery.isNone || (w'.db.run = w.db.run && w'.db.events = w.db.events)

/-- One step of one actor. -/
def World.step (cfg : Settings) (w : World) (a : Action) : Option World :=
  (w.move cfg a).filter w.respectsLock

theorem World.move_of_step {cfg : Settings} {w w' : World} {a : Action}
    (h : w.step cfg a = some w') : w.move cfg a = some w' :=
  (Option.filter_eq_some_iff.mp h).1

end IChat
