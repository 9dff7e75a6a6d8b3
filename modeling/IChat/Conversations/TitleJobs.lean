import Mathlib.Algebra.Group.Nat.Defs
import Mathlib.Data.List.Nodup
import Mathlib.Data.List.Perm.Subperm
import Mathlib.Logic.Function.Basic
import IChat.General.StepSystem

/-!
# Title jobs

One row of `conversation_title_jobs` and any number of attempts of `generate_conversation_title`.
A claim counts the attempt and takes a lease, and an expired lease lets another attempt claim the
job. The transactions that finish an attempt (`completeTitleJob`, `failTitleJob`) write the row
whoever owns it, and a claim does not look at the attempt count.

`titleJobSafe_of_along`: a job that is completed or dead stays so, an attempt that was overtaken
does not change the status, and the title model is invoked for at most `titleMaxAttempts` attempts,
in every run in which

* no attempt that was overtaken writes another status than the one the job has (`Overwrites`);
* no claim takes over the expired lease of a job whose attempts are used up (`Overspends`).
-/

namespace IChat.Conversations

inductive TitleJobStatus
  | pending | processing | completed | dead
  deriving DecidableEq, Repr

/-- A row of `conversation_title_jobs`. -/
structure TitleJob where
  status : TitleJobStatus
  attemptCount : ℕ
  nextAttemptAt : ℕ
  lockedUntil : Option ℕ
  lastError : Option String
  completedAt : Option ℕ
  deriving DecidableEq, Repr

/-- `_TITLE_MAX_ATTEMPTS`. -/
def titleMaxAttempts : ℕ := 3 + 1

/-- `_TITLE_JOB_LEASE_SECONDS`. -/
def titleJobLeaseSeconds : ℕ := 120

/-- The condition of `claim_title_job` and `list_due_title_jobs`. -/
def TitleJob.Due (now : ℕ) (job : TitleJob) : Prop :=
  job.status = .pending ∧ job.nextAttemptAt ≤ now ∨
    job.status = .processing ∧ ∃ t ∈ job.lockedUntil, t < now

instance (now : ℕ) (job : TitleJob) : Decidable (job.Due now) :=
  inferInstanceAs (Decidable (_ ∧ _ ∨ _ ∧ _))

/-- `claim_title_job`. -/
def claimTitleJob (leaseSeconds now : ℕ) (job : TitleJob) : Option TitleJob :=
  if job.Due now then
    some { job with
      status := .processing
      attemptCount := job.attemptCount + 1
      lockedUntil := some (now + leaseSeconds) }
  else none

/-- `complete_title_job`. -/
def completeTitleJob (now : ℕ) (job : TitleJob) : TitleJob :=
  { job with
    status := .completed, lockedUntil := none, lastError := none, completedAt := some now }

/-- `fail_title_job`. -/
def failTitleJob (error : String) (retryAfterSeconds : ℕ) (dead : Bool) (now : ℕ)
    (job : TitleJob) : TitleJob :=
  { job with
    status := if dead then .dead else .pending
    lockedUntil := none
    lastError := some error
    nextAttemptAt := now + retryAfterSeconds }

/-- `_retry_title_task`: the attempts are used up by the attempt's own count. -/
def retryTitleTask (attemptCount : ℕ) (error : String) (now : ℕ) (job : TitleJob) : TitleJob :=
  failTitleJob error (min 60 (5 * 2 ^ (attemptCount - 1))) (titleMaxAttempts ≤ attemptCount) now job

/-- The status that `_retry_title_task` writes. -/
def failedStatus (attemptCount : ℕ) : TitleJobStatus :=
  if titleMaxAttempts ≤ attemptCount then .dead else .pending

@[simp] theorem retryTitleTask_status (attemptCount : ℕ) (error : String) (now : ℕ)
    (job : TitleJob) : (retryTitleTask attemptCount error now job).status =
    failedStatus attemptCount := by
  simp [retryTitleTask, failTitleJob, failedStatus]

/-- How far an attempt has come; `attemptCount` is the number its claim was given. -/
inductive TitlePhase
  | fresh
  /-- The job is claimed. -/
  | claimed (attemptCount : ℕ)
  /-- There is a message to make a title of. -/
  | loaded (attemptCount : ℕ)
  /-- There is a title, or none is needed. -/
  | completing (attemptCount : ℕ)
  /-- An exception is caught. -/
  | failing (attemptCount : ℕ) (error : String)
  | finished
  deriving DecidableEq, Repr

/-- The number of an attempt that is under way. -/
def TitlePhase.attemptCount? : TitlePhase → Option ℕ
  | .claimed count | .loaded count | .completing count | .failing count _ => some count
  | _ => none

/-- The job, as long as its run exists; the attempts by their task ids; and the numbers of the
attempts that have invoked the title model. -/
structure TitleWorld where
  job : Option TitleJob
  attempts : ℕ → TitlePhase
  invoked : List ℕ

inductive TitleAction
  | claim (taskId now : ℕ)
  | loadInputs (taskId : ℕ) (found : Bool)
  /-- The title model is invoked; it may raise. -/
  | generate (taskId : ℕ) (error : Option String)
  /-- Anything else of the attempt raises. -/
  | raise (taskId : ℕ) (error : String)
  | complete (taskId now : ℕ)
  | fail (taskId now : ℕ)
  | crash (taskId : ℕ)
  /-- The run is deleted with its conversation. -/
  | deleteRun
  deriving DecidableEq, Repr

namespace TitleWorld

/-- A job that has just been queued. -/
def init (now : ℕ) : TitleWorld where
  job := some
    { status := .pending
      attemptCount := 0
      nextAttemptAt := now
      lockedUntil := none
      lastError := none
      completedAt := none }
  attempts := fun _ => .fresh
  invoked := []

/-- The attempt goes on to another phase. -/
def goto (w : TitleWorld) (taskId : ℕ) (phase : TitlePhase) : TitleWorld :=
  { w with attempts := Function.update w.attempts taskId phase }

/-- One step of `generate_conversation_title`, or the deletion of the run. A sweep starts attempts,
which may be started at any time here. -/
def step (w : TitleWorld) : TitleAction → Option TitleWorld
  | .claim taskId now =>
    match w.attempts taskId with
    | .fresh =>
      match w.job.bind (claimTitleJob titleJobLeaseSeconds now) with
      | none => some (w.goto taskId .finished)
      | some job => some ({ w with job := some job }.goto taskId (.claimed job.attemptCount))
    | _ => none
  | .loadInputs taskId found =>
    match w.attempts taskId with
    | .claimed count => some (w.goto taskId (if found then .loaded count else .completing count))
    | _ => none
  | .generate taskId error =>
    match w.attempts taskId with
    | .loaded count =>
      some ({ w with invoked := w.invoked ++ [count] }.goto taskId
        (match error with
          | none => .completing count
          | some error => .failing count error))
    | _ => none
  | .raise taskId error =>
    match w.attempts taskId with
    | .claimed count | .loaded count | .completing count =>
      some (w.goto taskId (.failing count error))
    | _ => none
  | .complete taskId now =>
    match w.attempts taskId with
    | .completing _ =>
      some ({ w with job := w.job.map (completeTitleJob now) }.goto taskId .finished)
    | _ => none
  | .fail taskId now =>
    match w.attempts taskId with
    | .failing count error =>
      some ({ w with job := w.job.map (retryTitleTask count error now) }.goto taskId .finished)
    | _ => none
  | .crash taskId => some (w.goto taskId .finished)
  | .deleteRun => some { w with job := none }

end TitleWorld

/-- The job has been claimed again since the attempt claimed it. -/
def Overtaken (w : TitleWorld) (taskId : ℕ) : Prop :=
  ∃ job ∈ w.job, ∃ count ∈ (w.attempts taskId).attemptCount?, count ≠ job.attemptCount

/-- An attempt that was overtaken finishes, with another status than the job has. -/
def Overwrites (w : TitleWorld) : TitleAction → Prop
  | .complete taskId _ => Overtaken w taskId ∧ ∃ job ∈ w.job, job.status ≠ .completed
  | .fail taskId _ =>
    Overtaken w taskId ∧ ∃ job ∈ w.job, ∃ count ∈ (w.attempts taskId).attemptCount?,
      job.status ≠ failedStatus count
  | _ => False

/-- An expired lease is taken over although the attempts are used up. -/
def Overspends (w : TitleWorld) : TitleAction → Prop
  | .claim _ now =>
    ∃ job ∈ w.job, job.Due now ∧ job.status = .processing ∧ titleMaxAttempts ≤ job.attemptCount
  | _ => False

instance (w : TitleWorld) (taskId : ℕ) : Decidable (Overtaken w taskId) :=
  inferInstanceAs (Decidable (∃ job ∈ w.job, _))

instance (w : TitleWorld) (a : TitleAction) : Decidable (Overwrites w a) := by
  cases a <;> unfold Overwrites <;> infer_instance

instance (w : TitleWorld) (a : TitleAction) : Decidable (Overspends w a) := by
  cases a <;> unfold Overspends <;> infer_instance

/-- The status of the job. -/
def TitleWorld.status? (w : TitleWorld) : Option TitleJobStatus := w.job.map TitleJob.status

/-- An attempt that was overtaken leaves the status as it is. -/
def OvertakenKeepsStatus (w : TitleWorld) (a : TitleAction) : Prop :=
  ∀ taskId now, (a = .complete taskId now ∨ a = .fail taskId now) → Overtaken w taskId →
    ∀ w', w.step a = some w' → w'.status? = w.status?

/-! ### The invariant -/

/-- What an attempt under way knows of the job: its number is not above the job's count; while it
is the last one to have claimed the job, the job is being processed; and its number has not been
used to invoke the title model before it does so. -/
structure AttemptInv (job : TitleJob) (invoked : List ℕ) (phase : TitlePhase) (count : ℕ) :
    Prop where
  pos : 0 < count
  le : count ≤ job.attemptCount
  processing : count = job.attemptCount → job.status = .processing
  unused : phase = .claimed count ∨ phase = .loaded count → count ∉ invoked

/-- The invariant of a job whose run exists. -/
structure TitleInv (w : TitleWorld) (job : TitleJob) : Prop where
  attempts : ∀ taskId, ∀ count ∈ (w.attempts taskId).attemptCount?,
    AttemptInv job w.invoked (w.attempts taskId) count
  unique : ∀ taskId taskId', ∀ count ∈ (w.attempts taskId).attemptCount?,
    count ∈ (w.attempts taskId').attemptCount? → taskId = taskId'
  pending : job.status = .pending → job.attemptCount < titleMaxAttempts
  le : job.attemptCount ≤ titleMaxAttempts
  invoked : ∀ count ∈ w.invoked, 0 < count ∧ count ≤ job.attemptCount
  nodup : w.invoked.Nodup

/-- The invariant of the world: it is about the job, or about the job that was there when its run
was deleted. -/
def TitleWorldInv (w : TitleWorld) : Prop := ∃ job, TitleInv w job ∧ ∀ j ∈ w.job, j = job

section invariant

variable {w w' : TitleWorld} {job job' : TitleJob} {a : TitleAction} {taskId id now count : ℕ}
  {phase : TitlePhase} {invoked : List ℕ}

theorem titleWorldInv_init (now : ℕ) : TitleWorldInv (.init now) := by
  refine ⟨_, ?_, fun j hj => (Option.some.inj hj).symm⟩
  exact
    { attempts := fun _ => nofun
      unique := fun _ _ => nofun
      pending := fun _ => show 0 < titleMaxAttempts by decide
      le := Nat.zero_le _
      invoked := nofun
      nodup := List.nodup_nil }

/-- An attempt goes on, and may use its number. It changes the status of the job only when it ends
and was the last one to claim the job. -/
theorem TitleInv.advance (h : TitleInv w job)
    (hattempts : w'.attempts = Function.update w.attempts taskId phase)
    (hphase : ∀ count ∈ phase.attemptCount?, count ∈ (w.attempts taskId).attemptCount?)
    (hcount : job'.attemptCount = job.attemptCount)
    (hstatus : job'.status = job.status ∨
      phase = .finished ∧ job.attemptCount ∈ (w.attempts taskId).attemptCount?)
    (hpending : job'.status = .pending → job.attemptCount < titleMaxAttempts)
    (hinvoked : w'.invoked = w.invoked ∨
      ∃ count, w.attempts taskId = .loaded count ∧ w'.invoked = w.invoked ++ [count])
    (hunused : ∀ count, phase = .claimed count ∨ phase = .loaded count →
      w.attempts taskId = .claimed count) : TitleInv w' job' := by
  -- the attempts under way are those from before
  have hold : ∀ id, ∀ count ∈ (w'.attempts id).attemptCount?,
      count ∈ (w.attempts id).attemptCount? := by
    intro id count hmem
    rw [hattempts] at hmem
    by_cases hid : id = taskId
    · subst hid
      rw [Function.update_self] at hmem
      exact hphase count hmem
    · rwa [Function.update_of_ne hid] at hmem
  have hused : ∀ count ∈ w'.invoked, count ∈ w.invoked ∨ w.attempts taskId = .loaded count := by
    intro count hmem
    rcases hinvoked with hsame | ⟨used, hloaded, hsame⟩
    · exact .inl (hsame ▸ hmem)
    · rw [hsame] at hmem
      rcases List.mem_append.mp hmem with hmem | hmem
      · exact .inl hmem
      · exact .inr (List.mem_singleton.mp hmem ▸ hloaded)
  refine ⟨?_, ?_, ?_, hcount ▸ h.le, ?_, ?_⟩
  · intro id count hmem
    have hinv := h.attempts id count (hold id count hmem)
    refine ⟨hinv.pos, hcount ▸ hinv.le, fun hlast => ?_, fun hwaiting hmem' => ?_⟩
    · rw [hcount] at hlast
      rcases hstatus with hsame | ⟨rfl, hself⟩
      · rw [hsame]
        exact hinv.processing hlast
      · -- the attempt that ends is the only one with this number
        exfalso
        have hid := h.unique id taskId count (hold id count hmem) (hlast ▸ hself)
        rw [hid, hattempts, Function.update_self] at hmem
        cases hmem
    · have hphase' : w.attempts id = .claimed count ∨ w.attempts id = .loaded count ∧
        id ≠ taskId := by
        rw [hattempts] at hwaiting
        by_cases hid : id = taskId
        · subst hid
          rw [Function.update_self] at hwaiting
          exact .inl (hunused count hwaiting)
        · rw [Function.update_of_ne hid] at hwaiting
          exact hwaiting.imp_right fun hloaded => ⟨hloaded, hid⟩
      rcases hused count hmem' with hbefore | hnow
      · exact hinv.unused (hphase'.imp_right And.left) hbefore
      · have hid := h.unique id taskId count (hold id count hmem) (by rw [hnow]; rfl)
        rcases hphase' with hclaimed | ⟨-, hne⟩
        · rw [hid, hnow] at hclaimed
          cases hclaimed
        · exact hne hid
  · intro id id' count hmem hmem'
    exact h.unique id id' count (hold id count hmem) (hold id' count hmem')
  · intro hwaiting
    rw [hcount]
    exact hpending hwaiting
  · intro count hmem
    rw [hcount]
    rcases hused count hmem with hbefore | hnow
    · exact h.invoked count hbefore
    · have hinv := h.attempts taskId count (by rw [hnow]; rfl)
      exact ⟨hinv.pos, hinv.le⟩
  · rcases hinvoked with hsame | ⟨used, hloaded, hsame⟩
    · rw [hsame]
      exact h.nodup
    · have hnew := (h.attempts taskId used (by rw [hloaded]; rfl)).unused (.inr hloaded)
      rw [hsame]
      exact List.nodup_append'.mpr ⟨h.nodup, List.nodup_singleton _, by simpa using hnew⟩

/-- A claim gives the attempt a new number. -/
theorem TitleInv.claim (h : TitleInv w job) (hfresh : w.attempts taskId = .fresh)
    (hclaim : claimTitleJob titleJobLeaseSeconds now job = some job')
    (hspends : ¬(job.Due now ∧ job.status = .processing ∧ titleMaxAttempts ≤ job.attemptCount)) :
    TitleInv ({ w with job := some job' }.goto taskId (.claimed job'.attemptCount)) job' := by
  unfold claimTitleJob at hclaim
  split at hclaim
  · next hdue =>
    cases hclaim
    have hbudget : job.attemptCount < titleMaxAttempts := by
      rcases hdue with ⟨hpending, -⟩ | hprocessing
      · exact h.pending hpending
      · by_contra hover
        exact hspends ⟨.inr hprocessing, hprocessing.1, by omega⟩
    have hother : ∀ id, id ≠ taskId → ∀ {phase : TitlePhase},
        Function.update w.attempts taskId phase id = w.attempts id :=
      fun id hid phase => Function.update_of_ne hid _ _
    -- the number is above those of the other attempts
    have hbelow : ∀ id, ∀ count ∈ (w.attempts id).attemptCount?, count < job.attemptCount + 1 :=
      fun id count hmem => Nat.lt_succ_of_le (h.attempts id count hmem).le
    refine ⟨?_, ?_, nofun, hbudget, ?_, h.nodup⟩
    · intro id count hmem
      by_cases hid : id = taskId
      · subst hid
        simp only [TitleWorld.goto, Function.update_self] at hmem ⊢
        cases hmem
        refine ⟨Nat.succ_pos _, Nat.le_refl _, fun _ => rfl, fun _ hused => ?_⟩
        exact absurd (h.invoked _ hused).2 (Nat.not_succ_le_self _)
      · simp only [TitleWorld.goto, hother id hid] at hmem ⊢
        have hinv := h.attempts id count hmem
        exact ⟨hinv.pos, Nat.le_succ_of_le hinv.le, fun _ => rfl, hinv.unused⟩
    · intro id id' count hmem hmem'
      by_cases hid : id = taskId <;> by_cases hid' : id' = taskId
      · exact hid.trans hid'.symm
      · subst hid
        simp only [TitleWorld.goto, Function.update_self, hother id' hid'] at hmem hmem'
        cases hmem
        exact absurd (hbelow id' _ hmem') (Nat.lt_irrefl _)
      · subst hid'
        simp only [TitleWorld.goto, Function.update_self, hother id hid] at hmem hmem'
        cases hmem'
        exact absurd (hbelow id _ hmem) (Nat.lt_irrefl _)
      · simp only [TitleWorld.goto, hother id hid, hother id' hid'] at hmem hmem'
        exact h.unique id id' count hmem hmem'
    · intro count hmem
      have hinv := h.invoked count hmem
      exact ⟨hinv.1, Nat.le_succ_of_le hinv.2⟩
  · cases hclaim

/-- An attempt that goes on leaves the job as it is. -/
theorem TitleWorldInv.goto (h : TitleWorldInv w)
    (hphase : ∀ count ∈ phase.attemptCount?, count ∈ (w.attempts taskId).attemptCount?)
    (hunused : ∀ count, phase = .claimed count ∨ phase = .loaded count →
      w.attempts taskId = .claimed count) : TitleWorldInv (w.goto taskId phase) := by
  obtain ⟨job, hjob, hself⟩ := h
  exact ⟨job, hjob.advance rfl hphase rfl (.inl rfl) hjob.pending (.inl rfl) hunused, hself⟩

/-- An attempt finishes by a transaction on the job. -/
theorem TitleWorldInv.finish {f : TitleJob → TitleJob} (h : TitleWorldInv w)
    (hcount : ∀ job, (f job).attemptCount = job.attemptCount)
    (hself : ∀ job ∈ w.job, job.attemptCount ∈ (w.attempts taskId).attemptCount? ∨
      (f job).status = job.status)
    (hpending : ∀ job ∈ w.job, TitleInv w job → (f job).status = .pending →
      job.attemptCount < titleMaxAttempts) :
    TitleWorldInv ({ w with job := w.job.map f }.goto taskId .finished) := by
  obtain ⟨job, hjob, hunique⟩ := h
  cases hrow : w.job with
  | none =>
    exact ⟨job, hjob.advance rfl nofun rfl (.inl rfl) hjob.pending (.inl rfl) nofun, nofun⟩
  | some job' =>
    obtain rfl := hunique job' hrow
    refine ⟨f job', hjob.advance rfl nofun (hcount job') ?_ (hpending job' hrow hjob) (.inl rfl)
      nofun, fun j hj => (Option.some.inj hj).symm⟩
    exact (hself job' hrow).symm.imp_right fun hmem => ⟨rfl, hmem⟩

/-- An attempt that was not overtaken, or was and writes the status the job has. -/
theorem attemptCount_mem_or {job : TitleJob} (hjob : job ∈ w.job) {status : TitleJobStatus}
    (hcount : count ∈ (w.attempts taskId).attemptCount?)
    (h : ¬(Overtaken w taskId ∧ ∃ j ∈ w.job, j.status ≠ status)) :
    job.attemptCount ∈ (w.attempts taskId).attemptCount? ∨ status = job.status := by
  by_cases hlast : count = job.attemptCount
  · exact .inl (hlast ▸ hcount)
  · refine .inr (by_contra fun hne => h ⟨⟨job, hjob, count, hcount, hlast⟩, job, hjob, ?_⟩)
    exact fun heq => hne heq.symm

theorem attemptCount_mem_or_of_fail {job : TitleJob} (hjob : job ∈ w.job)
    (hcount : count ∈ (w.attempts taskId).attemptCount?)
    (hwrites : ¬Overwrites w (.fail taskId now)) :
    job.attemptCount ∈ (w.attempts taskId).attemptCount? ∨ failedStatus count = job.status := by
  refine attemptCount_mem_or hjob hcount fun hover => hwrites ⟨hover.1, ?_⟩
  obtain ⟨j, hj, hne⟩ := hover.2
  exact ⟨j, hj, count, hcount, hne⟩

/-- An exception is caught while the attempt is under way. -/
theorem raise_cases {error : String} (hstep : w.step (.raise taskId error) = some w') :
    ∃ count, count ∈ (w.attempts taskId).attemptCount? ∧
      w' = w.goto taskId (.failing count error) := by
  simp only [TitleWorld.step] at hstep
  cases hphase : w.attempts taskId with
  | claimed count | loaded count | completing count =>
    rw [hphase] at hstep
    cases hstep
    exact ⟨count, rfl, rfl⟩
  | fresh | failing | finished =>
    rw [hphase] at hstep
    cases hstep

/-- **Step lemma.** -/
theorem TitleWorldInv.step (h : TitleWorldInv w) (hwrites : ¬Overwrites w a)
    (hspends : ¬Overspends w a) (hstep : w.step a = some w') : TitleWorldInv w' := by
  cases a with
  | claim =>
    simp only [TitleWorld.step] at hstep
    split at hstep
    · next hfresh =>
      obtain ⟨job, hjob, hunique⟩ := h
      split at hstep
      · cases hstep
        exact TitleWorldInv.goto ⟨job, hjob, hunique⟩ nofun nofun
      · next job' hclaim =>
        cases hstep
        obtain ⟨row, hrow, hclaim⟩ := Option.bind_eq_some_iff.mp hclaim
        obtain rfl := hunique row hrow
        exact ⟨job', hjob.claim hfresh hclaim fun hover => hspends ⟨row, hrow, hover⟩,
          fun j hj => (Option.some.inj hj).symm⟩
    · cases hstep
  | loadInputs taskId found =>
    simp only [TitleWorld.step] at hstep
    split at hstep
    · next count hphase =>
      cases hstep
      refine h.goto ?_ ?_
      · intro count' hmem
        rw [hphase]
        cases found <;> exact hmem
      · intro count' hwaiting
        rw [hphase]
        cases found <;> simp at hwaiting
        rw [hwaiting]
    · cases hstep
  | generate taskId error =>
    simp only [TitleWorld.step] at hstep
    split at hstep
    · next count hphase =>
      cases hstep
      obtain ⟨job, hjob, hunique⟩ := h
      refine ⟨job, hjob.advance rfl ?_ rfl (.inl rfl) hjob.pending (.inr ⟨count, hphase, rfl⟩) ?_,
        hunique⟩
      · intro count' hmem
        rw [hphase]
        cases error <;> exact hmem
      · intro count' hwaiting
        cases error <;> simp at hwaiting
    · cases hstep
  | raise =>
    obtain ⟨count, hcount, rfl⟩ := raise_cases hstep
    exact h.goto (fun _ hmem => Option.some.inj hmem ▸ hcount) nofun
  | complete taskId =>
    simp only [TitleWorld.step] at hstep
    split at hstep
    · next count hphase =>
      cases hstep
      -- the last attempt alone may end the job, or the row was already ended
      have hmem : count ∈ (w.attempts taskId).attemptCount? := by rw [hphase]; rfl
      refine h.finish (fun _ => rfl) (fun job hjob => ?_) fun _ _ _ => nofun
      exact attemptCount_mem_or hjob hmem hwrites
    · cases hstep
  | fail taskId now =>
    simp only [TitleWorld.step] at hstep
    split at hstep
    · next count error hphase =>
      cases hstep
      have hmem : count ∈ (w.attempts taskId).attemptCount? := by rw [hphase]; rfl
      have hself : ∀ job ∈ w.job, job.attemptCount ∈ (w.attempts taskId).attemptCount? ∨
          (retryTitleTask count error now job).status = job.status := by
        intro job hjob
        rw [retryTitleTask_status]
        exact attemptCount_mem_or_of_fail hjob hmem hwrites
      refine h.finish (fun _ => rfl) hself fun job hjob hinv hpending => ?_
      rcases hself job hjob with hlast | hsame
      · have hcount : count = job.attemptCount := by
          rw [hphase] at hlast
          exact Option.some.inj hlast
        -- a job failed at the budget is dead, not pending
        by_contra hover
        have hdead : titleMaxAttempts ≤ count := by omega
        simp [failedStatus, hdead] at hpending
      · exact hinv.pending (hsame.symm.trans hpending)
    · cases hstep
  | crash =>
    cases hstep
    exact h.goto nofun nofun
  | deleteRun =>
    cases hstep
    obtain ⟨job, hjob, -⟩ := h
    exact ⟨job, ⟨hjob.attempts, hjob.unique, hjob.pending, hjob.le, hjob.invoked,
      hjob.nodup⟩, nofun⟩

/-- Nobody invokes the title model twice under one number, and no number is above the budget. -/
theorem TitleWorldInv.length_invoked_le (h : TitleWorldInv w) :
    w.invoked.length ≤ titleMaxAttempts := by
  obtain ⟨job, hjob, -⟩ := h
  have hsub : w.invoked ⊆ List.range' 1 titleMaxAttempts := by
    intro count hmem
    have hpos := hjob.invoked count hmem
    have hle := hjob.le
    rw [List.mem_range'_1]
    omega
  have hlength := (List.subperm_of_subset hjob.nodup hsub).length_le
  rwa [List.length_range'] at hlength

/-- A step that overwrites nothing leaves a final status as it is. -/
theorem TitleWorldInv.status_final (h : TitleWorldInv w) (hwrites : ¬Overwrites w a)
    (hstep : w.step a = some w') {status : TitleJobStatus}
    (hfinal : status = .completed ∨ status = .dead) (hstatus : ∀ j ∈ w.job, j.status = status) :
    ∀ j ∈ w'.job, j.status = status := by
  have hactive : status ≠ .processing := by rcases hfinal with rfl | rfl <;> nofun
  have hwaiting : status ≠ .pending := by rcases hfinal with rfl | rfl <;> nofun
  obtain ⟨job, hjob, hunique⟩ := h
  -- no attempt that is the last one to have claimed the job is under way
  have hover : ∀ taskId, ∀ row ∈ w.job, row.attemptCount ∉ (w.attempts taskId).attemptCount? := by
    intro taskId row hrow hmem
    obtain rfl := hunique row hrow
    exact hactive ((hstatus row hrow).symm.trans ((hjob.attempts taskId _ hmem).processing rfl))
  cases a with
  | claim =>
    simp only [TitleWorld.step] at hstep
    split at hstep
    · split at hstep
      · cases hstep
        exact hstatus
      · next job' hclaim =>
        obtain ⟨row, hrow, hclaim⟩ := Option.bind_eq_some_iff.mp hclaim
        have hrowStatus := hstatus row hrow
        unfold claimTitleJob at hclaim
        split at hclaim
        · next hdue =>
          rcases hdue with ⟨hpending, -⟩ | ⟨hprocessing, -⟩
          · exact absurd (hrowStatus.symm.trans hpending) hwaiting
          · exact absurd (hrowStatus.symm.trans hprocessing) hactive
        · cases hclaim
    · cases hstep
  | complete taskId =>
    simp only [TitleWorld.step] at hstep
    split at hstep
    · next count hphase =>
      cases hstep
      intro j hj
      obtain ⟨row, hrow, rfl⟩ := Option.map_eq_some_iff.mp hj
      have hmem : count ∈ (w.attempts taskId).attemptCount? := by rw [hphase]; rfl
      rcases attemptCount_mem_or hrow hmem hwrites with hlast | hsame
      · exact absurd hlast (hover taskId row hrow)
      · exact hsame.trans (hstatus row hrow)
    · cases hstep
  | fail taskId now =>
    simp only [TitleWorld.step] at hstep
    split at hstep
    · next count error hphase =>
      cases hstep
      intro j hj
      obtain ⟨row, hrow, rfl⟩ := Option.map_eq_some_iff.mp hj
      have hmem : count ∈ (w.attempts taskId).attemptCount? := by rw [hphase]; rfl
      rcases attemptCount_mem_or_of_fail hrow hmem hwrites with hlast | hsame
      · exact absurd hlast (hover taskId row hrow)
      · exact (retryTitleTask_status count error now row).trans (hsame.trans (hstatus row hrow))
    · cases hstep
  | loadInputs | generate =>
    simp only [TitleWorld.step] at hstep
    split at hstep <;> cases hstep
    exact hstatus
  | raise =>
    obtain ⟨count, -, rfl⟩ := raise_cases hstep
    exact hstatus
  | crash =>
    cases hstep
    exact hstatus
  | deleteRun =>
    cases hstep
    nofun

/-- An overtaken attempt that overwrites nothing leaves the status as it is. -/
theorem overtakenKeepsStatus_of_not_overwrites (hwrites : ¬Overwrites w a) :
    OvertakenKeepsStatus w a := by
  intro taskId now haction hovertaken w' hstep
  obtain ⟨job, hjob, count, hcount, hne⟩ := hovertaken
  have hlast : job.attemptCount ∉ (w.attempts taskId).attemptCount? := by
    intro hmem
    exact hne (Option.eq_some_unique hcount hmem)
  rcases haction with rfl | rfl
  · simp only [TitleWorld.step] at hstep
    split at hstep
    · cases hstep
      have hsame := (attemptCount_mem_or hjob hcount hwrites).resolve_left hlast
      simp [TitleWorld.status?, TitleWorld.goto, Option.mem_def.mp hjob, completeTitleJob, hsame]
    · cases hstep
  · simp only [TitleWorld.step] at hstep
    split at hstep
    · next count' error hphase =>
      cases hstep
      have hcount' : count' ∈ (w.attempts taskId).attemptCount? := by rw [hphase]; rfl
      have hsame := (attemptCount_mem_or_of_fail hjob hcount' hwrites).resolve_left hlast
      simp [TitleWorld.status?, TitleWorld.goto, Option.mem_def.mp hjob, hsame]
    · cases hstep

end invariant

/-! ### Whole runs -/

section runs

variable {w w' : TitleWorld} {as more : List TitleAction} {now : ℕ}

/-- The step neither overwrites nor overspends. -/
def Orderly (w : TitleWorld) (a : TitleAction) : Prop := ¬Overwrites w a ∧ ¬Overspends w a

instance (w : TitleWorld) (a : TitleAction) : Decidable (Orderly w a) :=
  inferInstanceAs (Decidable (_ ∧ _))

theorem titleWorldInv_of_run (hinv : TitleWorldInv w)
    (halong : StepSystem.Along TitleWorld.step Orderly w as)
    (hrun : StepSystem.run TitleWorld.step w as = some w') : TitleWorldInv w' :=
  StepSystem.run_invariant_along (fun _ _ _ h horderly hstep => h.step horderly.1 horderly.2 hstep)
    hinv halong hrun

/-- A final status stays in an orderly run. -/
theorem status_final_of_run {status : TitleJobStatus} (hinv : TitleWorldInv w)
    (hfinal : status = .completed ∨ status = .dead) (hstatus : ∀ j ∈ w.job, j.status = status)
    (halong : StepSystem.Along TitleWorld.step Orderly w as)
    (hrun : StepSystem.run TitleWorld.step w as = some w') : ∀ j ∈ w'.job, j.status = status := by
  have hstep : ∀ v a v', (TitleWorldInv v ∧ ∀ j ∈ v.job, j.status = status) → Orderly v a →
      TitleWorld.step v a = some v' → TitleWorldInv v' ∧ ∀ j ∈ v'.job, j.status = status :=
    fun v a v' h horderly hstep =>
      ⟨h.1.step horderly.1 horderly.2 hstep, h.1.status_final horderly.1 hstep hfinal h.2⟩
  have hrule := StepSystem.run_invariant_along hstep ⟨hinv, hstatus⟩ halong hrun
  exact hrule.2

/-- Once the job is completed or dead it stays so; an attempt that was overtaken does not change
its status; and the title model is invoked for at most `titleMaxAttempts` attempts. -/
structure TitleJobSafe (now : ℕ) (as : List TitleAction) (w : TitleWorld) : Prop where
  absorbing : ∀ as₁ as₂ w₁ job₁ job, as = as₁ ++ as₂ →
    StepSystem.run TitleWorld.step (.init now) as₁ = some w₁ → w₁.job = some job₁ →
      w.job = some job → job₁.status = .completed ∨ job₁.status = .dead →
        job.status = job₁.status
  overtaken : StepSystem.Along TitleWorld.step OvertakenKeepsStatus (.init now) as
  invoked : w.invoked.length ≤ titleMaxAttempts

/-- **Title jobs are safe** in every run without a step that overwrites or overspends. -/
theorem titleJobSafe_of_along
    (hrun : StepSystem.run TitleWorld.step (.init now) as = some w)
    (halong : StepSystem.Along TitleWorld.step Orderly (.init now) as) :
    TitleJobSafe now as w := by
  refine ⟨?_, ?_, (titleWorldInv_of_run (titleWorldInv_init now) halong hrun).length_invoked_le⟩
  · rintro as₁ as₂ w₁ job₁ job rfl hrun₁ hjob₁ hjob hfinal
    obtain ⟨halong₁, halong₂⟩ := (StepSystem.along_append hrun₁).mp halong
    obtain ⟨w₁', hrun₁', hrun₂⟩ := StepSystem.run_append.mp hrun
    obtain rfl : w₁ = w₁' := Option.eq_some_unique hrun₁ hrun₁'
    have hinv := titleWorldInv_of_run (titleWorldInv_init now) halong₁ hrun₁
    have hstatus : ∀ j ∈ w₁.job, j.status = job₁.status := by
      intro j hj
      rw [Option.eq_some_unique hj hjob₁]
    exact status_final_of_run hinv hfinal hstatus halong₂ hrun₂ job hjob
  · exact halong.mono fun v a horderly => overtakenKeepsStatus_of_not_overwrites horderly.1

/-- The lease of the first attempt expires; the second one completes the job, and then the first one
fails. -/
def overtakenFails : List TitleAction :=
  [.claim 1 0, .loadInputs 1 true, .claim 2 121, .loadInputs 2 true, .generate 2 none,
    .complete 2 122, .generate 1 (some "timeout"), .fail 1 123]

/-- Five attempts crash after they have invoked the title model. -/
def crashesFiveTimes : List TitleAction :=
  [.claim 1 0, .loadInputs 1 true, .generate 1 none, .crash 1,
    .claim 2 200, .loadInputs 2 true, .generate 2 none, .crash 2,
    .claim 3 400, .loadInputs 3 true, .generate 3 none, .crash 3,
    .claim 4 600, .loadInputs 4 true, .generate 4 none, .crash 4,
    .claim 5 800, .loadInputs 5 true, .generate 5 none, .crash 5]

/-- `overtakenFails` re-opens a completed job, and `crashesFiveTimes` invokes the title model for
five attempts. -/
theorem overtakenFails_reopens :
    (∃ w, StepSystem.run TitleWorld.step (.init 0) overtakenFails = some w ∧
      w.status? = some .pending ∧ ¬TitleJobSafe 0 overtakenFails w) ∧
    ∃ w, StepSystem.run TitleWorld.step (.init 0) crashesFiveTimes = some w ∧
      w.invoked = [1, 2, 3, 4, 5] ∧ ¬TitleJobSafe 0 crashesFiveTimes w := by
  refine ⟨⟨_, rfl, rfl, fun hsafe => ?_⟩, ⟨_, rfl, rfl, fun hsafe => ?_⟩⟩
  · have hsame := hsafe.absorbing (overtakenFails.take 6) (overtakenFails.drop 6) _ _ _ rfl rfl rfl
      rfl (.inl rfl)
    cases hsame
  · exact absurd hsafe.invoked (by decide)

/-- A failed attempt, and one that completes the job. -/
def failsThenCompletes : List TitleAction :=
  [.claim 1 0, .loadInputs 1 true, .generate 1 (some "timeout"), .fail 1 10, .claim 2 15,
    .loadInputs 2 true, .generate 2 none, .complete 2 16]

theorem failsThenCompletes_safe :
    ∃ w, StepSystem.run TitleWorld.step (.init 0) failsThenCompletes = some w ∧
      w.status? = some .completed ∧ TitleJobSafe 0 failsThenCompletes w := by
  refine ⟨_, rfl, rfl, titleJobSafe_of_along rfl ?_⟩
  decide +kernel

end runs

end IChat.Conversations
