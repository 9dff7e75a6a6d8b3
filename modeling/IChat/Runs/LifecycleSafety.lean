import IChat.Runs.Lifecycle

/-!
# Run lifecycle safety

The invariant `LifecycleSafe` ties three things to the status of a run: the terminal events of its
log are exactly the one that goes with the status, the lease is set only while the run is active,
and the conversation holds an assistant message exactly when the run succeeded. Every committed
transaction preserves it, so it holds after every interleaving of workers, clients and recovery.

A terminal status is never left, and the queue is left at most once.
-/

namespace IChat

/-- The terminal events of a log, by type. -/
def terminalTypes (events : List RunEventResponse) : List RunEventType :=
  (events.map fun e => e.type).filter RunEventType.isTerminal

theorem terminalTypes_append_singleton (events : List RunEventResponse) (row : RunEventResponse) :
    terminalTypes (events ++ [row]) =
      terminalTypes events ++ if row.type.isTerminal then [row.type] else [] := by
  cases h : row.type.isTerminal <;> simp [terminalTypes, h]

/-- What holds of the rows of a run whatever happened to it. -/
structure LifecycleSafe (db : Db) : Prop where
  terminal : terminalTypes db.events = db.run.status.terminalEvent.toList
  lease : db.run.status = .queued ∨ db.run.status.isTerminal = true →
    db.run.leaseExpiresAt = none
  message : db.messages.length = if db.run.status = .succeeded then 1 else 0

theorem lifecycleSafe_init : LifecycleSafe Db.init := by
  refine ⟨rfl, fun _ => rfl, rfl⟩

section Step

variable {db db' : Db} {tx : Tx}

theorem terminalEvent_eq_none {status : RunStatus} (h : status.isTerminal = false) :
    status.terminalEvent = none := by
  simpa [RunStatus.isTerminal] using h

/-- **Step lemma.** Every effect of a transaction keeps the run safe. -/
theorem LifecycleSafe.effect (hdb : LifecycleSafe db) (h : tx.Effect db db') :
    LifecycleSafe db' := by
  cases h with
  | quiet hstatus hlease hevents hmessages _ =>
    refine ⟨by rw [hevents, hstatus, hdb.terminal], fun hidle => ?_,
      by rw [hmessages, hstatus, hdb.message]⟩
    rw [hstatus] at hidle
    rcases hlease with hlease | hactive
    · rw [hlease, hdb.lease hidle]
    · -- a renewable status is neither queued nor terminal
      exact absurd hidle
        ((by decide : ∀ s ∈ renewableStatuses, ¬(s = .queued ∨ s.isTerminal = true)) _ hactive)
  | draft draft heq =>
    subst heq
    exact ⟨hdb.terminal, hdb.lease, hdb.message⟩
  | claimed row hqueued hstarted happend htype _ hmessages _ _ =>
    refine ⟨?_, fun hidle => ?_, ?_⟩
    · rw [happend.events, terminalTypes_append_singleton, hdb.terminal, hqueued, hstarted, htype]
      rfl
    · rw [hstarted] at hidle
      exact absurd hidle (by decide)
    · rw [hmessages, hdb.message, hqueued, hstarted]
      rfl
  | streaming hstatus hlease hevents hmessages _ =>
    have hterminal : db'.run.status.terminalEvent = db.run.status.terminalEvent := by
      rcases hstatus with hstatus | ⟨hstarted, hstreaming⟩
      · rw [hstatus]
      · rw [hstarted, hstreaming]
        rfl
    refine ⟨?_, fun hidle => ?_, ?_⟩
    · rw [hterminal, ← hdb.terminal]
      rcases hevents with hevents | ⟨_, event, _, row, _, _, hrow, happend, _⟩
      · rw [hevents]
      · have htype : row.type.isTerminal = false := by
          have heq : row.type = event.type := congrArg RunEvent.type hrow
          rw [heq, RunEventType.isTerminal_eq_false_of_isForwarded event.forwarded]
        rw [happend.events, terminalTypes_append_singleton, htype]
        simp
    · rw [hlease]
      refine hdb.lease ?_
      rcases hstatus with hstatus | ⟨-, hstreaming⟩
      · rwa [hstatus] at hidle
      · rw [hstreaming] at hidle
        exact absurd hidle (by decide)
    · rw [hmessages, hdb.message]
      rcases hstatus with hstatus | ⟨hstarted, hstreaming⟩
      · rw [hstatus]
      · rw [hstarted, hstreaming]
        rfl
  | requested hactive hcancelling hlease hevents hmessages _ =>
    have hrunning := (by decide : ∀ s ∈ cancelRequestStatuses,
      s.terminalEvent = none ∧ s ≠ .succeeded) _ hactive
    refine ⟨?_, fun hidle => ?_, ?_⟩
    · rw [hevents, hdb.terminal, hrunning.1, hcancelling]
      rfl
    · rw [hcancelling] at hidle
      exact absurd hidle (by decide)
    · rw [hmessages, hdb.message, hcancelling, if_neg hrunning.2]
      rfl
  | ended row _ hactive _ hterminal hlease happend _ hmessages _ =>
    -- an active run has no terminal event yet, so the one appended is the only one
    have hnone := terminalEvent_eq_none hactive
    refine ⟨?_, fun _ => hlease, ?_⟩
    · rw [happend.events, terminalTypes_append_singleton, hdb.terminal, hnone, hterminal,
        RunStatus.isTerminal_of_terminalEvent hterminal]
      rfl
    · have hne : db.run.status ≠ .succeeded := by
        intro heq
        rw [heq] at hnone
        cases hnone
      rw [hmessages, hdb.message, if_neg hne, Nat.zero_add]

theorem LifecycleSafe.commit (hdb : LifecycleSafe db) : LifecycleSafe (commit db tx) := by
  unfold IChat.commit
  split
  · rename_i db' h
    exact hdb.effect (Tx.exec_effect h)
  · exact hdb

/-- A terminal status is never left. -/
theorem Tx.Effect.status_eq_of_isTerminal (h : tx.Effect db db')
    (hterminal : db.run.status.isTerminal = true) : db'.run.status = db.run.status := by
  cases h with
  | quiet hstatus => exact hstatus
  | draft draft heq =>
    subst heq
    rfl
  | claimed _ hqueued =>
    rw [hqueued] at hterminal
    cases hterminal
  | streaming hstatus =>
    rcases hstatus with hstatus | ⟨hstarted, -⟩
    · exact hstatus
    · rw [hstarted] at hterminal
      cases hterminal
  | requested hactive =>
    exact absurd hterminal
      ((by decide : ∀ s ∈ cancelRequestStatuses, ¬s.isTerminal = true) _ hactive)
  | ended _ _ hactive =>
    rw [hterminal] at hactive
    cases hactive

theorem commit_status_of_isTerminal (tx : Tx) (hterminal : db.run.status.isTerminal = true) :
    (commit db tx).run.status = db.run.status := by
  unfold commit
  split
  · rename_i db' h
    exact (Tx.exec_effect h).status_eq_of_isTerminal hterminal
  · rfl

theorem commit_status_ne_queued (tx : Tx) (hne : db.run.status ≠ .queued) :
    (commit db tx).run.status ≠ .queued := by
  unfold commit
  split
  · rename_i db' h
    exact (Tx.exec_effect h).status_ne_queued hne
  · exact hne

end Step

/-! ### Interleavings -/

/-- The rows of a run after the transactions of any number of actors, in the order in which they
got the row lock. -/
def runTxs (db : Db) (txs : List Tx) : Db := txs.foldl commit db

/-- The workers whose claim returned this run, in order. -/
def claimers : Db → List Tx → List String
  | _, [] => []
  | db, tx :: txs =>
    match tx with
    | .claim workerId leaseSeconds now =>
      match claimNextQueuedRun workerId leaseSeconds now db with
      | .ok (_, true) => workerId :: claimers (commit db tx) txs
      | _ => claimers (commit db tx) txs
    | _ => claimers (commit db tx) txs

section Runs

variable {db : Db} {txs : List Tx}

theorem LifecycleSafe.runTxs (hdb : LifecycleSafe db) : LifecycleSafe (runTxs db txs) := by
  induction txs generalizing db with
  | nil => exact hdb
  | cons tx txs ih => exact ih hdb.commit

theorem runTxs_status_of_isTerminal (hterminal : db.run.status.isTerminal = true) :
    (runTxs db txs).run.status = db.run.status := by
  induction txs generalizing db with
  | nil => rfl
  | cons tx txs ih =>
    have hcommit := commit_status_of_isTerminal tx hterminal
    exact (ih (hcommit ▸ hterminal)).trans hcommit

/-- A claim of a run that is not queued does not return it. -/
theorem claimers_eq_nil (hne : db.run.status ≠ .queued) : claimers db txs = [] := by
  induction txs generalizing db with
  | nil => rfl
  | cons tx txs ih =>
    have hrest := ih (commit_status_ne_queued tx hne)
    cases tx with
    | claim =>
      simp only [claimers, claimNextQueuedRun, if_neg hne]
      exact hrest
    | _ => exact hrest

/-- A claim that returns the run takes it out of the queue. -/
theorem status_ne_queued_of_claim {workerId : String} {leaseSeconds : ℕ} {now : Time} {db' : Db}
    (h : claimNextQueuedRun workerId leaseSeconds now db = .ok (db', true)) :
    (commit db (.claim workerId leaseSeconds now)).run.status ≠ .queued := by
  have hexec : (Tx.claim workerId leaseSeconds now).exec db = .ok db' := by
    simp [Tx.exec, h, Except.map]
  have hcommit : commit db (.claim workerId leaseSeconds now) = db' := by
    unfold commit
    rw [hexec]
  rw [hcommit]
  unfold claimNextQueuedRun at h
  split at h
  · obtain ⟨db₁, happend, hok⟩ := bind_eq_ok_iff.mp h
    cases hok
    obtain ⟨row, -, -, -, -, -, -, rfl⟩ := appendRunEvent_eq_ok happend
    exact (by decide : RunStatus.started ≠ .queued)
  · cases h

theorem length_claimers_le_one : (claimers db txs).length ≤ 1 := by
  induction txs generalizing db with
  | nil => exact Nat.zero_le 1
  | cons tx txs ih =>
    cases tx with
    | claim =>
      simp only [claimers]
      split
      · rename_i hclaim
        rw [List.length_cons, claimers_eq_nil (status_ne_queued_of_claim hclaim)]
        exact le_rfl
      · exact ih
    | _ => exact ih

end Runs

/-- The status is the terminal one with a given event exactly when that event is in the log. -/
theorem LifecycleSafe.status_iff {db : Db} (hdb : LifecycleSafe db) {status : RunStatus}
    {type : RunEventType} (h : status.terminalEvent = some type) :
    db.run.status = status ↔ ∃ e ∈ db.events, e.type = type := by
  have hmem : (∃ e ∈ db.events, e.type = type) ↔ type ∈ terminalTypes db.events := by
    simp [terminalTypes, RunStatus.isTerminal_of_terminalEvent h]
  rw [hmem, hdb.terminal]
  generalize db.run.status = current
  cases status <;> cases h <;> cases current <;> simp [RunStatus.terminalEvent]

/-- **Run lifecycle safety.** After any interleaving of transactions of any number of workers,
clients and recovery loops on a newly created run: the log holds at most one terminal event; the
run has a terminal status exactly when the log holds the terminal event of that type; a terminal
status is kept by whatever comes later; at most one claim returned the run; the lease is null while
the run is queued or terminal; and the conversation has an assistant message of the run exactly
when the run succeeded. -/
theorem run_lifecycle_safety (txs : List Tx) :
    (terminalTypes (runTxs Db.init txs).events).length ≤ 1 ∧
      (∀ status type, status.terminalEvent = some type →
        ((runTxs Db.init txs).run.status = status ↔
          ∃ e ∈ (runTxs Db.init txs).events, e.type = type)) ∧
      (∀ more : List Tx, (runTxs Db.init txs).run.status.isTerminal = true →
        (runTxs Db.init (txs ++ more)).run.status = (runTxs Db.init txs).run.status) ∧
      (claimers Db.init txs).length ≤ 1 ∧
      ((runTxs Db.init txs).run.status = .queued ∨
          (runTxs Db.init txs).run.status.isTerminal = true →
        (runTxs Db.init txs).run.leaseExpiresAt = none) ∧
      ((runTxs Db.init txs).messages ≠ [] ↔ (runTxs Db.init txs).run.status = .succeeded) := by
  have hsafe : LifecycleSafe (runTxs Db.init txs) := lifecycleSafe_init.runTxs
  refine ⟨?_, fun status type h => hsafe.status_iff h, fun more hterminal => ?_,
    length_claimers_le_one, hsafe.lease, ?_⟩
  · rw [hsafe.terminal]
    cases (runTxs Db.init txs).run.status.terminalEvent <;> simp
  · rw [show runTxs Db.init (txs ++ more) = runTxs (runTxs Db.init txs) more from
      List.foldl_append]
    exact runTxs_status_of_isTerminal hterminal
  · have hlength := hsafe.message
    split at hlength
    · rename_i hsucceeded
      exact ⟨fun _ => hsucceeded, fun _ hnil => by simp [hnil] at hlength⟩
    · rename_i hother
      exact ⟨fun hne => absurd (List.length_eq_zero_iff.mp hlength) hne,
        fun hsucceeded => absurd hsucceeded hother⟩

end IChat
