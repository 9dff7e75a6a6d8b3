import Mathlib.Data.Int.Notation
import Mathlib.Data.List.Nodup
import Mathlib.Data.List.Perm.Subperm
import Mathlib.Logic.Function.Basic
import IChat.General.StepSystem

/-!
# The email outbox

One row of `email_outbox` and any number of invocations of `process_outbox`, each with its own
task id. An invocation sends between short transactions, so its lease can expire, and the row can
be swept and claimed again, at every point of it.

* The transactions (`claimOutbox`, `bumpAttempt`, `markSent`, `markFailure`, `markDead`) are
  partial functions of the row: `none` is an `UPDATE` or a `SELECT` that finds no row.
* `World.step` is one step of one invocation, or a sweep; the ghost lists `bumps` and `sends` are
  the task ids that have committed `bump_attempt` and called `provider.send`.

`outbox_delivery_safety` collects what holds in every run. An invocation can crash between its
committed `bump_attempt` and `provider.send`, so `attempt_count` counts the former:
`bumpedThenCrashed_unsent` is a run without a send whose `attempt_count` is 1.
-/

namespace IChat.Email

inductive OutboxStatus
  | pending | sending | sent | dead
  deriving DecidableEq, Repr

/-- The state of a row of `email_outbox`. -/
structure EmailOutbox where
  status : OutboxStatus
  attemptCount : ℕ
  nextAttemptAt : ℕ
  lockedBy : Option ℕ
  lockedUntil : Option ℕ
  provider : Option String
  providerMessageId : Option String
  lastError : Option String
  sentAt : Option ℕ
  deriving DecidableEq, Repr

/-- `email_outbox_max_attempts` and `email_outbox_lease_seconds`. -/
structure OutboxSettings where
  maxAttempts : ℕ
  leaseSeconds : ℕ

def OutboxSettings.default : OutboxSettings := ⟨5, 120⟩

/-- `BACKOFF_SCHEDULE_SECONDS`. -/
def backoffScheduleSeconds : List ℕ := [60, 300, 900, 3600, 21600]

/-- The index that `mark_failure` takes into the schedule. -/
def backoffIndex (attemptCount : ℕ) : ℤ :=
  (min attemptCount backoffScheduleSeconds.length : ℕ) - 1

/-- Indexing a tuple: a negative index counts from the end. -/
def pyGet? (values : List ℕ) (index : ℤ) : Option ℕ :=
  if index < 0 then
    if -index ≤ (values.length : ℤ) then values[((values.length : ℤ) + index).toNat]? else none
  else values[index.toNat]?

/-- `claim_outbox`. -/
def claimOutbox (s : OutboxSettings) (taskId now : ℕ) (row : EmailOutbox) : Option EmailOutbox :=
  if row.status = .pending ∧ row.nextAttemptAt ≤ now then
    some { row with
      status := .sending, lockedBy := some taskId, lockedUntil := some (now + s.leaseSeconds) }
  else none

/-- The row is being sent under an unexpired lease of the task. -/
def HoldsLease (taskId now : ℕ) (row : EmailOutbox) : Prop :=
  row.status = .sending ∧ row.lockedBy = some taskId ∧ ∃ t ∈ row.lockedUntil, now ≤ t

instance (taskId now : ℕ) (row : EmailOutbox) : Decidable (HoldsLease taskId now row) :=
  inferInstanceAs (Decidable (_ ∧ _ ∧ _))

/-- `bump_attempt`. -/
def bumpAttempt (taskId now : ℕ) (row : EmailOutbox) : Option EmailOutbox :=
  if HoldsLease taskId now row then some { row with attemptCount := row.attemptCount + 1 } else none

/-- `mark_sent`. -/
def markSent (taskId : ℕ) (provider : String) (providerMessageId : Option String) (now : ℕ)
    (row : EmailOutbox) : Option EmailOutbox :=
  if HoldsLease taskId now row then
    some { row with
      status := .sent
      provider := some provider
      providerMessageId := providerMessageId
      sentAt := some now
      lockedBy := none
      lockedUntil := none
      lastError := none }
  else none

/-- `mark_failure`. The delay is looked up in the schedule, which fails outside of it. -/
def markFailure (s : OutboxSettings) (taskId : ℕ) (error : String) (now : ℕ) (row : EmailOutbox) :
    Option EmailOutbox :=
  if HoldsLease taskId now row then
    let released := { row with
      lastError := some (error.take 1000).toString, lockedBy := none, lockedUntil := none }
    if s.maxAttempts ≤ row.attemptCount then some { released with status := .dead }
    else
      (pyGet? backoffScheduleSeconds (backoffIndex row.attemptCount)).map fun delay =>
        { released with status := .pending, nextAttemptAt := now + delay }
  else none

/-- `mark_dead`. -/
def markDead (taskId : ℕ) (error : String) (now : ℕ) (row : EmailOutbox) : Option EmailOutbox :=
  if HoldsLease taskId now row then
    some { row with
      status := .dead
      lastError := some (error.take 1000).toString
      lockedBy := none
      lockedUntil := none }
  else none

/-- `sweep_outbox`: an expired lease is taken back. -/
def sweepOutbox (now : ℕ) (row : EmailOutbox) : EmailOutbox :=
  if row.status = .sending ∧ ∃ t ∈ row.lockedUntil, t < now then
    { row with
      status := .pending
      lockedBy := none
      lockedUntil := none
      nextAttemptAt := max row.nextAttemptAt now }
  else row

/-- What the provider answers to `send`. -/
inductive SendOutcome
  | success (provider : String) (providerMessageId : Option String)
  | failure (retryable : Bool) (error : String)

/-- How far an invocation of `process_outbox` has come. -/
inductive InvocationPhase
  /-- The task has not been started. -/
  | fresh
  /-- The claim found the attempt budget used up. -/
  | exhausted
  /-- The row is claimed with the attempt count it had. -/
  | claimed (attemptCount : ℕ)
  /-- `bump_attempt` is committed. -/
  | bumped
  /-- `provider.send` has been called. -/
  | sending
  | answered (outcome : SendOutcome)
  | finished

/-- The row, the invocations by their task ids, and who has bumped and sent. -/
structure OutboxWorld where
  row : EmailOutbox
  invocations : ℕ → InvocationPhase
  bumps : List ℕ
  sends : List ℕ

inductive OutboxAction
  | claim (taskId now : ℕ)
  | markExhausted (taskId now : ℕ)
  | bump (taskId now : ℕ)
  | send (taskId : ℕ)
  | answer (taskId : ℕ) (outcome : SendOutcome)
  | record (taskId now : ℕ)
  /-- The process of an invocation ends, or an exception leaves it. -/
  | crash (taskId : ℕ)
  | sweep (now : ℕ)

namespace OutboxWorld

/-- A row that has just been added, due at a given time. -/
def init (nextAttemptAt : ℕ) : OutboxWorld where
  row :=
    { status := .pending
      attemptCount := 0
      nextAttemptAt
      lockedBy := none
      lockedUntil := none
      provider := none
      providerMessageId := none
      lastError := none
      sentAt := none }
  invocations := fun _ => .fresh
  bumps := []
  sends := []

/-- The invocation goes on to another phase. -/
def goto (w : OutboxWorld) (taskId : ℕ) (phase : InvocationPhase) : OutboxWorld :=
  { w with invocations := Function.update w.invocations taskId phase }

@[simp] theorem invocations_goto_self (w : OutboxWorld) (taskId : ℕ) (phase : InvocationPhase) :
    (w.goto taskId phase).invocations taskId = phase := Function.update_self ..

theorem invocations_goto_of_ne (w : OutboxWorld) {taskId id : ℕ} (h : id ≠ taskId)
    (phase : InvocationPhase) : (w.goto taskId phase).invocations id = w.invocations id :=
  Function.update_of_ne h ..

/-- The transaction that records the provider's answer. -/
def recordOutcome (s : OutboxSettings) (taskId now : ℕ) (row : EmailOutbox) :
    SendOutcome → Option EmailOutbox
  | .success provider providerMessageId => markSent taskId provider providerMessageId now row
  | .failure true error => markFailure s taskId error now row
  | .failure false error => markDead taskId error now row

/-- One step of `process_outbox`, or a sweep. -/
def step (s : OutboxSettings) (w : OutboxWorld) : OutboxAction → Option OutboxWorld
  | .claim taskId now =>
    match w.invocations taskId with
    | .fresh =>
      match claimOutbox s taskId now w.row with
      | none => some (w.goto taskId .finished)
      | some row =>
        some ({ w with row }.goto taskId
          (if s.maxAttempts ≤ row.attemptCount then .exhausted else .claimed row.attemptCount))
    | _ => none
  | .markExhausted taskId now =>
    match w.invocations taskId with
    | .exhausted =>
      let row := markDead taskId "Email outbox attempt budget exhausted" now w.row
      some ({ w with row := row.getD w.row }.goto taskId .finished)
    | _ => none
  | .bump taskId now =>
    match w.invocations taskId with
    | .claimed _ =>
      match bumpAttempt taskId now w.row with
      | none => some (w.goto taskId .finished)
      | some row => some ({ w with row, bumps := w.bumps ++ [taskId] }.goto taskId .bumped)
    | _ => none
  | .send taskId =>
    match w.invocations taskId with
    | .bumped => some ({ w with sends := w.sends ++ [taskId] }.goto taskId .sending)
    | _ => none
  | .answer taskId outcome =>
    match w.invocations taskId with
    | .sending => some (w.goto taskId (.answered outcome))
    | _ => none
  | .record taskId now =>
    match w.invocations taskId with
    | .answered outcome =>
      let row := recordOutcome s taskId now w.row outcome
      some ({ w with row := row.getD w.row }.goto taskId .finished)
    | _ => none
  | .crash taskId => some (w.goto taskId .finished)
  | .sweep now => some { w with row := sweepOutbox now w.row }

end OutboxWorld

/-! ### What one step does to the row -/

/-- The ways in which a step changes the row. -/
inductive RowChange (s : OutboxSettings) (row : EmailOutbox) : OutboxAction → EmailOutbox → Prop
  | same (a : OutboxAction) : RowChange s row a row
  | claimed (taskId now : ℕ) (hpending : row.status = .pending) :
    RowChange s row (.claim taskId now)
      { row with
        status := .sending, lockedBy := some taskId, lockedUntil := some (now + s.leaseSeconds) }
  | bumped (taskId now : ℕ) (hholds : HoldsLease taskId now row) :
    RowChange s row (.bump taskId now) { row with attemptCount := row.attemptCount + 1 }
  | released {a : OutboxAction} {row' : EmailOutbox} (taskId now : ℕ)
    (haction : a = .record taskId now ∨ a = .markExhausted taskId now)
    (hholds : HoldsLease taskId now row) (hcount : row'.attemptCount = row.attemptCount)
    (hfree : row'.lockedBy = none) : RowChange s row a row'
  | swept (now : ℕ) (hsending : row.status = .sending) (hexpired : ∃ t ∈ row.lockedUntil, t < now) :
    RowChange s row (.sweep now)
      { row with
        status := .pending
        lockedBy := none
        lockedUntil := none
        nextAttemptAt := max row.nextAttemptAt now }

section row

variable {s : OutboxSettings} {w w' : OutboxWorld} {a : OutboxAction} {row row' : EmailOutbox}
  {taskId now : ℕ} {error : String}

theorem markDead_eq_some (h : markDead taskId error now row = some row') :
    HoldsLease taskId now row ∧ row'.attemptCount = row.attemptCount ∧ row'.lockedBy = none := by
  unfold markDead at h
  split at h
  · next hholds =>
    cases h
    exact ⟨hholds, rfl, rfl⟩
  · cases h

theorem recordOutcome_eq_some {outcome : SendOutcome}
    (h : OutboxWorld.recordOutcome s taskId now row outcome = some row') :
    HoldsLease taskId now row ∧ row'.attemptCount = row.attemptCount ∧ row'.lockedBy = none := by
  match outcome with
  | .success provider providerMessageId =>
    simp only [OutboxWorld.recordOutcome, markSent] at h
    split at h
    · next hholds =>
      cases h
      exact ⟨hholds, rfl, rfl⟩
    · cases h
  | .failure false error => exact markDead_eq_some h
  | .failure true error =>
    simp only [OutboxWorld.recordOutcome, markFailure] at h
    split at h
    · next hholds =>
      split at h
      · cases h
        exact ⟨hholds, rfl, rfl⟩
      · obtain ⟨delay, -, rfl⟩ := Option.map_eq_some_iff.mp h
        exact ⟨hholds, rfl, rfl⟩
    · cases h

/-- A transaction that releases the row either does so or finds no row. -/
theorem rowChange_getD {row? : Option EmailOutbox}
    (haction : a = .record taskId now ∨ a = .markExhausted taskId now)
    (h : ∀ row', row? = some row' →
      HoldsLease taskId now row ∧ row'.attemptCount = row.attemptCount ∧ row'.lockedBy = none) :
    RowChange s row a (row?.getD row) := by
  cases hrow : row? with
  | none => exact .same a
  | some row' =>
    obtain ⟨hholds, hcount, hfree⟩ := h row' hrow
    exact .released taskId now haction hholds hcount hfree

/-- **Inversion.** Every change of the row is one of `RowChange`. -/
theorem rowChange_of_step (h : w.step s a = some w') : RowChange s w.row a w'.row := by
  cases a with
  | claim taskId now =>
    simp only [OutboxWorld.step] at h
    split at h
    · split at h
      · cases h
        exact .same _
      · next row hclaim =>
        cases h
        unfold claimOutbox at hclaim
        split at hclaim
        · next hdue =>
          cases hclaim
          exact .claimed taskId now hdue.1
        · cases hclaim
    · cases h
  | markExhausted =>
    simp only [OutboxWorld.step] at h
    split at h
    · cases h
      exact rowChange_getD (.inr rfl) fun row' => markDead_eq_some
    · cases h
  | bump taskId now =>
    simp only [OutboxWorld.step] at h
    split at h
    · split at h
      · cases h
        exact .same _
      · next row hbump =>
        cases h
        unfold bumpAttempt at hbump
        split at hbump
        · next hholds =>
          cases hbump
          exact .bumped taskId now hholds
        · cases hbump
    · cases h
  | send | answer =>
    simp only [OutboxWorld.step] at h
    split at h <;> cases h
    exact .same _
  | record =>
    simp only [OutboxWorld.step] at h
    split at h
    · cases h
      exact rowChange_getD (.inl rfl) fun row' => recordOutcome_eq_some
    · cases h
  | crash =>
    cases h
    exact .same _
  | sweep now =>
    cases h
    unfold sweepOutbox
    split
    · next hexpired => exact .swept now hexpired.1 hexpired.2
    · exact .same _

/-- The status of a row that is neither waiting nor being sent is final. -/
theorem RowChange.status_eq_of_final (h : RowChange s row a row')
    (hfinal : row.status = .sent ∨ row.status = .dead) : row'.status = row.status := by
  have hsending : row.status ≠ .sending := by rcases hfinal with h | h <;> simp [h]
  have hpending : row.status ≠ .pending := by rcases hfinal with h | h <;> simp [h]
  cases h with
  | same => rfl
  | claimed taskId now h => exact absurd h hpending
  | bumped => rfl
  | released taskId now haction hholds => exact absurd hholds.1 hsending
  | swept now h => exact absurd h hsending

end row

/-! ### The attempt budget -/

/-- What an invocation in a given phase knows. It counts an attempt only while it holds the row
with the attempt count that it was claimed with, and this count was within the budget. -/
def PhaseInv (s : OutboxSettings) (row : EmailOutbox) (bumps sends : List ℕ) (taskId : ℕ) :
    InvocationPhase → Prop
  | .fresh => row.lockedBy ≠ some taskId ∧ taskId ∉ bumps
  | .exhausted => taskId ∉ bumps
  | .claimed count =>
    count < s.maxAttempts ∧ (row.lockedBy = some taskId → row.attemptCount = count) ∧
      taskId ∉ bumps
  | .bumped => taskId ∈ bumps ∧ taskId ∉ sends
  | .sending | .answered _ => taskId ∈ bumps
  | .finished => True

/-- The invariant of the outbox. -/
structure OutboxInv (s : OutboxSettings) (w : OutboxWorld) : Prop where
  count : w.row.attemptCount = w.bumps.length
  le : w.row.attemptCount ≤ s.maxAttempts
  bumpsNodup : w.bumps.Nodup
  sendsNodup : w.sends.Nodup
  sent : ∀ taskId ∈ w.sends, taskId ∈ w.bumps
  phases : ∀ taskId, PhaseInv s w.row w.bumps w.sends taskId (w.invocations taskId)

section budget

variable {s : OutboxSettings} {w w' : OutboxWorld} {a : OutboxAction} {row : EmailOutbox}
  {bumps sends : List ℕ} {taskId id now : ℕ} {phase : InvocationPhase}

/-- What one invocation knows survives the steps of the others. -/
theorem PhaseInv.mono (h : PhaseInv s w.row w.bumps w.sends id phase)
    (hrow : row.lockedBy = some id →
      w.row.lockedBy = some id ∧ row.attemptCount = w.row.attemptCount)
    (hbumps : id ∈ bumps ↔ id ∈ w.bumps) (hsends : id ∈ sends ↔ id ∈ w.sends) :
    PhaseInv s row bumps sends id phase := by
  cases phase with
  | fresh => exact ⟨fun hlock => h.1 (hrow hlock).1, fun hmem => h.2 (hbumps.mp hmem)⟩
  | exhausted => exact fun hmem => h (hbumps.mp hmem)
  | claimed =>
    refine ⟨h.1, fun hlock => ?_, fun hmem => h.2.2 (hbumps.mp hmem)⟩
    exact (hrow hlock).2.trans (h.2.1 (hrow hlock).1)
  | bumped => exact ⟨hbumps.mpr h.1, fun hmem => h.2 (hsends.mp hmem)⟩
  | sending => exact hbumps.mpr h
  | answered => exact hbumps.mpr h
  | finished => trivial

theorem outboxInv_init (s : OutboxSettings) (nextAttemptAt : ℕ) :
    OutboxInv s (.init nextAttemptAt) where
  count := rfl
  le := Nat.zero_le _
  bumpsNodup := List.nodup_nil
  sendsNodup := List.nodup_nil
  sent _ := nofun
  phases _ := ⟨nofun, List.not_mem_nil⟩

/-- What all invocations know, when one of them goes to another phase. -/
theorem OutboxInv.phases_goto (h : OutboxInv s w)
    (hself : PhaseInv s row bumps sends taskId phase)
    (hrow : ∀ id, id ≠ taskId → row.lockedBy = some id →
      w.row.lockedBy = some id ∧ row.attemptCount = w.row.attemptCount)
    (hbumps : ∀ id, id ≠ taskId → (id ∈ bumps ↔ id ∈ w.bumps))
    (hsends : ∀ id, id ≠ taskId → (id ∈ sends ↔ id ∈ w.sends)) (id : ℕ) :
    PhaseInv s row bumps sends id (Function.update w.invocations taskId phase id) := by
  by_cases hid : id = taskId
  · subst hid
    rw [Function.update_self]
    exact hself
  · rw [Function.update_of_ne hid]
    exact (h.phases id).mono (hrow id hid) (hbumps id hid) (hsends id hid)

/-- The invocation ends, and leaves the row as it is or releases it. -/
theorem OutboxInv.finish (h : OutboxInv s w) (hcount : row.attemptCount = w.row.attemptCount)
    (hlock : ∀ id, row.lockedBy = some id → w.row.lockedBy = some id) :
    OutboxInv s ({ w with row }.goto taskId .finished) where
  count := hcount.trans h.count
  le := hcount ▸ h.le
  bumpsNodup := h.bumpsNodup
  sendsNodup := h.sendsNodup
  sent := h.sent
  phases := h.phases_goto trivial (fun id _ hlocked => ⟨hlock id hlocked, hcount⟩)
    (fun _ _ => Iff.rfl) fun _ _ => Iff.rfl

/-- A release leaves the attempt count as it is, and the row without an owner. -/
theorem OutboxInv.finish_getD {row? : Option EmailOutbox} (h : OutboxInv s w)
    (hrow : ∀ row', row? = some row' →
      HoldsLease taskId now w.row ∧ row'.attemptCount = w.row.attemptCount ∧
        row'.lockedBy = none) :
    OutboxInv s ({ w with row := row?.getD w.row }.goto taskId .finished) := by
  cases hrow? : row? with
  | none => exact h.finish rfl fun _ hlock => hlock
  | some row' =>
    obtain ⟨-, hcount, hfree⟩ := hrow row' hrow?
    refine h.finish hcount fun id hlock => ?_
    rw [Option.getD_some, hfree] at hlock
    cases hlock

/-- **Step lemma.** -/
theorem OutboxInv.step (h : OutboxInv s w) (hstep : w.step s a = some w') : OutboxInv s w' := by
  cases a with
  | claim taskId =>
    simp only [OutboxWorld.step] at hstep
    split at hstep
    · next hphase =>
      have hself : PhaseInv s w.row w.bumps w.sends taskId .fresh := hphase ▸ h.phases taskId
      split at hstep
      · cases hstep
        exact h.finish rfl fun _ hlock => hlock
      · next row hclaim =>
        cases hstep
        unfold claimOutbox at hclaim
        split at hclaim
        -- the claim takes the lock, on which no other invocation's phase depends
        · next hdue =>
          cases hclaim
          refine ⟨h.count, h.le, h.bumpsNodup, h.sendsNodup, h.sent, h.phases_goto ?_ ?_
            (fun _ _ => Iff.rfl) fun _ _ => Iff.rfl⟩
          · split
            · exact hself.2
            · next hbudget => exact ⟨by simpa using hbudget, fun _ => rfl, hself.2⟩
          · intro id hid hlock
            exact absurd (Option.some.inj hlock).symm hid
        · cases hclaim
    · cases hstep
  | markExhausted =>
    simp only [OutboxWorld.step] at hstep
    split at hstep
    · cases hstep
      exact h.finish_getD fun row' => markDead_eq_some
    · cases hstep
  | bump taskId =>
    simp only [OutboxWorld.step] at hstep
    split at hstep
    · next count hphase =>
      have hself : PhaseInv s w.row w.bumps w.sends taskId (.claimed count) :=
        hphase ▸ h.phases taskId
      split at hstep
      · cases hstep
        exact h.finish rfl fun _ hlock => hlock
      · next row hbump =>
        cases hstep
        unfold bumpAttempt at hbump
        split at hbump
        · next hholds =>
          cases hbump
          obtain ⟨hbudget, hcount, hnew⟩ := hself
          -- the lock holder's count is current, so the bump stays within the budget
          have hcount := hcount hholds.2.1
          have hlength := h.count
          refine ⟨?_, ?_, ?_, h.sendsNodup, ?_, h.phases_goto ?_ ?_ ?_ fun _ _ => Iff.rfl⟩
          · simp [OutboxWorld.goto, hlength]
          · show w.row.attemptCount + 1 ≤ s.maxAttempts
            omega
          · exact List.nodup_append'.mpr
              ⟨h.bumpsNodup, List.nodup_singleton _, by simpa using hnew⟩
          · exact fun id hsent => List.mem_append_left _ (h.sent id hsent)
          · exact ⟨List.mem_append_right _ (List.mem_singleton_self _),
              fun hsent => hnew (h.sent taskId hsent)⟩
          · -- nobody else holds the row
            intro id hid hlock
            exact absurd (Option.eq_some_unique hlock hholds.2.1) hid
          · intro id hid
            show id ∈ w.bumps ++ [taskId] ↔ id ∈ w.bumps
            simp [hid]
        · cases hbump
    · cases hstep
  | send taskId =>
    simp only [OutboxWorld.step] at hstep
    split at hstep
    · next hphase =>
      cases hstep
      have hself : PhaseInv s w.row w.bumps w.sends taskId .bumped := hphase ▸ h.phases taskId
      refine ⟨h.count, h.le, h.bumpsNodup, ?_, ?_, h.phases_goto hself.1
        (fun _ _ hlock => ⟨hlock, rfl⟩) (fun _ _ => Iff.rfl) ?_⟩
      · exact List.nodup_append'.mpr
          ⟨h.sendsNodup, List.nodup_singleton _, by simpa using hself.2⟩
      · intro id hsent
        rcases List.mem_append.mp hsent with hold | hnew
        · exact h.sent id hold
        · exact List.mem_singleton.mp hnew ▸ hself.1
      · intro id hid
        show id ∈ w.sends ++ [taskId] ↔ id ∈ w.sends
        simp [hid]
    · cases hstep
  | answer taskId =>
    simp only [OutboxWorld.step] at hstep
    split at hstep
    · next hphase =>
      cases hstep
      have hself : PhaseInv s w.row w.bumps w.sends taskId .sending := hphase ▸ h.phases taskId
      exact ⟨h.count, h.le, h.bumpsNodup, h.sendsNodup, h.sent, h.phases_goto hself
        (fun _ _ hlock => ⟨hlock, rfl⟩) (fun _ _ => Iff.rfl) fun _ _ => Iff.rfl⟩
    · cases hstep
  | record =>
    simp only [OutboxWorld.step] at hstep
    split at hstep
    · cases hstep
      exact h.finish_getD fun row' => recordOutcome_eq_some
    · cases hstep
  | crash =>
    cases hstep
    exact h.finish rfl fun _ hlock => hlock
  | sweep =>
    cases hstep
    unfold sweepOutbox
    split
    · exact ⟨h.count, h.le, h.bumpsNodup, h.sendsNodup, h.sent, fun id =>
        (h.phases id).mono (fun hlock => absurd hlock nofun) Iff.rfl Iff.rfl⟩
    · exact h

/-- Nobody sends more often than it has counted. -/
theorem OutboxInv.length_sends_le (h : OutboxInv s w) : w.sends.length ≤ w.row.attemptCount := by
  rw [h.count]
  exact (List.subperm_of_subset h.sendsNodup h.sent).length_le

/-- The index into the schedule is within it once an attempt has been counted. -/
theorem backoffIndex_mem {attemptCount : ℕ} (h : 0 < attemptCount) :
    0 ≤ backoffIndex attemptCount ∧ backoffIndex attemptCount < backoffScheduleSeconds.length := by
  simp only [backoffIndex, backoffScheduleSeconds, List.length_cons, List.length_nil]
  omega

end budget

/-! ### Whole runs -/

section runs

variable {s : OutboxSettings} {w w' : OutboxWorld} {a : OutboxAction} {as more : List OutboxAction}
  {nextAttemptAt : ℕ}

/-- A change of the status or the attempt count is made by the invocation that holds the unexpired
lease, by a claim of a waiting row, or by the sweep of an expired lease. -/
def ChangedByHolder (s : OutboxSettings) (w : OutboxWorld) (a : OutboxAction) : Prop :=
  ∀ w', w.step s a = some w' →
    w'.row.status = w.row.status ∧ w'.row.attemptCount = w.row.attemptCount ∨
      (∃ taskId now, (a = .bump taskId now ∨ a = .record taskId now ∨ a =
        .markExhausted taskId now) ∧
        HoldsLease taskId now w.row) ∨
      (∃ taskId now, a = .claim taskId now ∧ w.row.status = .pending ∧ w'.row.status = .sending ∧
        w'.row.attemptCount = w.row.attemptCount) ∨
      ∃ now, a = .sweep now ∧ w.row.status = .sending ∧ (∃ t ∈ w.row.lockedUntil, t < now) ∧
        w'.row.status = .pending ∧ w'.row.attemptCount = w.row.attemptCount

/-- An invocation that records a failure looks its delay up inside the schedule. -/
def BackoffInside (w : OutboxWorld) : OutboxAction → Prop
  | .record taskId _ =>
    ∀ error, w.invocations taskId = .answered (.failure true error) →
      0 ≤ backoffIndex w.row.attemptCount ∧
        backoffIndex w.row.attemptCount < backoffScheduleSeconds.length
  | _ => True

theorem changedByHolder (w : OutboxWorld) (a : OutboxAction) : ChangedByHolder s w a := by
  intro w' hstep
  have hchange := rowChange_of_step hstep
  generalize w'.row = row' at hchange
  cases hchange with
  | same => exact .inl ⟨rfl, rfl⟩
  | claimed taskId now hpending =>
    exact .inr (.inr (.inl ⟨taskId, now, rfl, hpending, rfl, rfl⟩))
  | bumped taskId now hholds => exact .inr (.inl ⟨taskId, now, .inl rfl, hholds⟩)
  | released taskId now haction hholds =>
    exact .inr (.inl ⟨taskId, now, .inr haction, hholds⟩)
  | swept now hsending hexpired =>
    exact .inr (.inr (.inr ⟨now, rfl, hsending, hexpired, rfl, rfl⟩))

/-- The invariant holds in every state of every run. -/
theorem outboxInv_of_run
    (hrun : StepSystem.run (OutboxWorld.step s) (.init nextAttemptAt) as = some w) :
    OutboxInv s w :=
  StepSystem.run_invariant (fun _ _ _ h hstep => h.step hstep) (outboxInv_init s nextAttemptAt) hrun

/-- A final status stays. -/
theorem status_eq_of_run (hfinal : w.row.status = .sent ∨ w.row.status = .dead)
    (hrun : StepSystem.run (OutboxWorld.step s) w more = some w') :
    w'.row.status = w.row.status := by
  have hstep : ∀ v a v', v.row.status = w.row.status → OutboxWorld.step s v a = some v' →
      v'.row.status = w.row.status := by
    intro v a v' heq hstep
    exact ((rowChange_of_step hstep).status_eq_of_final (heq ▸ hfinal)).trans heq
  have hrule := StepSystem.run_invariant hstep rfl hrun
  exact hrule

theorem backoffInside (h : OutboxInv s w) (a : OutboxAction) : BackoffInside w a := by
  cases a with
  | record taskId =>
    intro error hphase
    have hself : PhaseInv s w.row w.bumps w.sends taskId (.answered (.failure true error)) :=
      hphase ▸ h.phases taskId
    refine backoffIndex_mem ?_
    rw [h.count]
    exact List.length_pos_of_mem hself
  | _ => trivial

/-- **Delivery safety of the outbox**, in every run of any number of invocations: `provider.send`
is called within the budget; the attempt count is within it too and counts the invocations that
have committed `bump_attempt`, among them all those that have sent; a final status stays; only the
holder of the unexpired lease changes the status or the attempt count, apart from the claim of a
waiting row and the sweep of an expired lease; and the delay of a retry is inside the schedule. -/
theorem outbox_delivery_safety (s : OutboxSettings) (nextAttemptAt : ℕ) (as : List OutboxAction)
    (w : OutboxWorld)
    (hrun : StepSystem.run (OutboxWorld.step s) (.init nextAttemptAt) as = some w) :
    w.sends.length ≤ s.maxAttempts ∧ w.row.attemptCount ≤ s.maxAttempts ∧
      w.row.attemptCount = w.bumps.length ∧ w.bumps.Nodup ∧ w.sends.Nodup ∧
      (∀ taskId ∈ w.sends, taskId ∈ w.bumps) ∧
      (∀ more w', (w.row.status = .sent ∨ w.row.status = .dead) →
        StepSystem.run (OutboxWorld.step s) w more = some w' →
          w'.row.status = w.row.status) ∧
      StepSystem.Along (OutboxWorld.step s)
        (fun w a => ChangedByHolder s w a ∧ BackoffInside w a) (.init nextAttemptAt) as := by
  have hinv := outboxInv_of_run hrun
  refine ⟨Nat.le_trans hinv.length_sends_le hinv.le, hinv.le, hinv.count, hinv.bumpsNodup,
    hinv.sendsNodup, hinv.sent, fun more w' hfinal hmore => status_eq_of_run hfinal hmore, ?_⟩
  refine (StepSystem.along_iff_forall_split hrun).mpr fun as₁ a as₂ m _ hrun₁ => ?_
  exact ⟨changedByHolder m a, backoffInside (outboxInv_of_run hrun₁) a⟩

/-- An invocation that sends its mail. -/
def sendsMail : List OutboxAction :=
  [.claim 1 0, .bump 1 0, .send 1, .answer 1 (.success "postmark" (some "id")), .record 1 1]

theorem sendsMail_safe :
    ∃ w, StepSystem.run (OutboxWorld.step .default) (.init 0) sendsMail = some w ∧
      w.row.status = .sent ∧ w.sends = [1] ∧ w.sends.length ≤ 5 := by
  refine ⟨_, rfl, rfl, rfl, ?_⟩
  exact (outbox_delivery_safety .default 0 sendsMail _ rfl).1

/-- An invocation crashes after it has counted its attempt; its lease is swept later. -/
def bumpedThenCrashed : List OutboxAction := [.claim 1 0, .bump 1 0, .crash 1]

/-- After `bumpedThenCrashed` an attempt is counted for which no send was started, and the sweep,
which holds no lease, changes the status. -/
theorem bumpedThenCrashed_unsent :
    ∃ w, StepSystem.run (OutboxWorld.step .default) (.init 0) bumpedThenCrashed = some w ∧
      w.row.attemptCount = 1 ∧ w.sends = [] ∧ w.row.status = .sending ∧
      ∃ w', w.step .default (.sweep 200) = some w' ∧ w'.row.status = .pending :=
  ⟨_, rfl, rfl, rfl, rfl, _, rfl, rfl⟩

end runs

end IChat.Email
