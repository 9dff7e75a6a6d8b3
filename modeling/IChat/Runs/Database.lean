import IChat.General.Except
import IChat.General.SeqLog
import IChat.Runs.Events

/-!
# The rows of one run

The part of the database that belongs to one run: its row in `runs`, its event log, its draft
checkpoint, the assistant message it produced and its stored transcript. Transactions hold the
lock of the run's row from their first statement, so each of them is a function on this record; a
statement that violates a constraint raises (`DbError`) and the transaction is rolled back.

The event log keeps the rows in the order of their commits. `listRunEventsAfter` is the ordered
query of the readers, `getNextRunEventSeq` the number the next event would get.
-/

namespace IChat

/-- `RunStatus`: the values the `status` column admits. -/
inductive RunStatus where
  | queued
  | started
  | streaming
  | succeeded
  | failed
  | cancelling
  | cancelled
  deriving DecidableEq

/-- The lifecycle columns of the `runs` row. -/
structure Run where
  status : RunStatus
  providerRequestId : Option String
  errorCode : Option String
  errorMessage : Option String
  usageMetadata : Option Dict
  timing : Option Dict
  leaseOwner : Option String
  leaseExpiresAt : Option Time
  heartbeatAt : Option Time
  startedAt : Option Time
  firstStreamedAt : Option Time
  completedAt : Option Time
  failedAt : Option Time
  cancelledAt : Option Time
  deriving DecidableEq

/-- The `run_drafts` row: the accumulated texts up to `seq` and the last delta events as the JSON
objects the worker stored. -/
structure RunDraft extends Snapshot where
  seq : ℕ
  events : List Dict
  updatedAt : Time
  deriving DecidableEq

/-- The assistant message of the run in the conversation. -/
structure AssistantMessage where
  content : String
  reasoning : Option String
  reasoningSummary : Option String
  metadata : Option Dict
  deriving DecidableEq

/-- A `run_provider_messages` row; its blocks are kept unserialized. -/
structure RunProviderMessage where
  seq : ℕ
  messageId : Option ℕ
  role : Role
  blocks : List ContentBlock
  deriving DecidableEq

/-- Everything the database holds for one run. -/
structure Db where
  run : Run
  events : List RunEventResponse
  draft : Option RunDraft
  messages : List AssistantMessage
  transcript : List RunProviderMessage
  deriving DecidableEq

/-- Why a transaction raises. -/
inductive DbError where
  /-- A check or unique constraint is violated. -/
  | integrity
  /-- A `ValueError` of the application. -/
  | value (message : String)
  deriving DecidableEq

/-- The row of a run that has just been created. -/
def Run.queued : Run where
  status := .queued
  providerRequestId := none
  errorCode := none
  errorMessage := none
  usageMetadata := none
  timing := none
  leaseOwner := none
  leaseExpiresAt := none
  heartbeatAt := none
  startedAt := none
  firstStreamedAt := none
  completedAt := none
  failedAt := none
  cancelledAt := none

/-- The database after the run was created and before any worker saw it. -/
def Db.init : Db where
  run := .queued
  events := []
  draft := none
  messages := []
  transcript := []

/-! ### Event log -/

/-- `max(RunEvent.seq)`, or zero for an empty log. -/
def maxEventSeq (events : List RunEventResponse) : ℕ :=
  (events.map fun e => e.seq).foldr max 0

/-- `get_next_run_event_seq`: one above the log and the draft. -/
def getNextRunEventSeq (db : Db) : ℕ :=
  max (maxEventSeq db.events) ((db.draft.map fun d => d.seq).getD 0) + 1

/-- `append_run_event`: the number defaults to the next one; zero and numbers in use violate the
constraints of the table. -/
def appendRunEvent (now : Time) (type : RunEventType) (payload : Dict) (seq : Option ℕ) (db : Db) :
    Except DbError Db :=
  let eventSeq := seq.getD (getNextRunEventSeq db)
  if eventSeq = 0 ∨ eventSeq ∈ db.events.map (fun e => e.seq) then .error .integrity
  else .ok { db with events := db.events ++ [⟨⟨eventSeq, type, payload⟩, now⟩] }

/-- `list_run_events_after`: the rows above a number, in order. -/
def listRunEventsAfter (db : Db) (afterSeq : ℕ) : List RunEventResponse :=
  (db.events.filter fun e => afterSeq < e.seq).insertionSort fun a b => a.seq ≤ b.seq

/-- `run_has_terminal_event`. -/
def runHasTerminalEvent (db : Db) : Bool := db.events.any fun e => e.type.isTerminal

/-- `get_run_draft`. -/
def getRunDraft (db : Db) : Option RunDraft := db.draft

/-- `upsert_run_draft`; the row's `seq > 0` constraint is checked. -/
def upsertRunDraft (now : Time) (seq : ℕ) (snapshot : Snapshot) (events : List Dict) (db : Db) :
    Except DbError Db :=
  if seq = 0 then .error .integrity
  else .ok { db with draft := some { snapshot with seq, events, updatedAt := now } }

/-- `delete_run_draft`. -/
def deleteRunDraft (db : Db) : Db := { db with draft := none }

section EventLog

variable {db db' : Db} {now : Time} {type : RunEventType} {payload : Dict} {seq : Option ℕ}
  {e : RunEventResponse} {n : ℕ}

theorem le_maxEventSeq {events : List RunEventResponse} (h : e ∈ events) :
    e.seq ≤ maxEventSeq events := by
  induction events with
  | nil => cases h
  | cons e' events ih =>
    simp only [maxEventSeq, List.map_cons, List.foldr_cons]
    rcases List.mem_cons.mp h with rfl | h
    · exact le_max_left _ _
    · exact (ih h).trans (le_max_right _ _)

theorem lt_getNextRunEventSeq (h : e ∈ db.events) : e.seq < getNextRunEventSeq db :=
  Nat.lt_succ_of_le ((le_maxEventSeq h).trans (le_max_left _ _))

/-- The log has grown by one row, whose number is positive and was free. -/
structure RowAppended (db db' : Db) (row : RunEventResponse) : Prop where
  events : db'.events = db.events ++ [row]
  positive : row.seq ≠ 0
  fresh : ∀ e ∈ db.events, e.seq ≠ row.seq

/-- What a successful append does. -/
theorem appendRunEvent_eq_ok (h : appendRunEvent now type payload seq db = .ok db') :
    ∃ row : RunEventResponse, row.type = type ∧ row.payload = payload ∧
      row.seq = seq.getD (getNextRunEventSeq db) ∧ row.seq ≠ 0 ∧ row.createdAt = now ∧
      (∀ e ∈ db.events, e.seq ≠ row.seq) ∧ db' = { db with events := db.events ++ [row] } := by
  simp only [appendRunEvent] at h
  split at h
  · cases h
  · rename_i hfree
    obtain ⟨hzero, hmem⟩ := not_or.mp hfree
    simp only [List.mem_map, not_exists, not_and] at hmem
    exact ⟨⟨⟨_, type, payload⟩, now⟩, rfl, rfl, rfl, hzero, rfl, hmem, (Except.ok.inj h).symm⟩

theorem mem_listRunEventsAfter : e ∈ listRunEventsAfter db n ↔ e ∈ db.events ∧ n < e.seq := by
  simp [listRunEventsAfter, List.mem_insertionSort]

/-- The query returns the rows in strictly ascending order when their numbers are distinct. -/
theorem ascending_listRunEventsAfter (h : (db.events.map fun e => e.seq).Nodup) :
    SeqLog.Ascending (fun e : RunEventResponse => e.seq) (listRunEventsAfter db n) := by
  have hsorted : (listRunEventsAfter db n).Pairwise fun a b => a.seq ≤ b.seq := by
    have : Std.Total fun a b : RunEventResponse => a.seq ≤ b.seq := ⟨fun a b => le_total _ _⟩
    have : IsTrans RunEventResponse fun a b => a.seq ≤ b.seq := ⟨fun a b c => le_trans⟩
    exact List.pairwise_insertionSort _ _
  have hnodup : (listRunEventsAfter db n).Pairwise fun a b => a.seq ≠ b.seq := by
    have hdistinct : db.events.Pairwise fun a b => a.seq ≠ b.seq := List.pairwise_map.mp h
    have hfilter := List.Pairwise.filter (fun e => decide (n < e.seq)) hdistinct
    exact ((List.perm_insertionSort _ _).pairwise_iff fun h => Ne.symm h).mpr hfilter
  exact hsorted.imp₂ (fun a b hle hne => lt_of_le_of_ne hle hne) hnodup

theorem runHasTerminalEvent_iff :
    runHasTerminalEvent db = true ↔ ∃ e ∈ db.events, e.type.isTerminal = true := by
  simp [runHasTerminalEvent]

end EventLog

end IChat
