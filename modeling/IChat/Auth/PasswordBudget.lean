import Mathlib.Tactic.SplitIfs
import IChat.Auth.Requests
import IChat.Auth.ResetRequests
import IChat.General.Lists
import IChat.General.StepSystem

/-!
# The budget of wrong passwords

`change_password_guard` and `change_password` for one user: the requests interleave at every command
to Redis, and a command can be lost or stay unanswered. The guard reads the failure counter, the
password is verified, and only then a wrong one is recorded; the expiry of the counter is a second
command behind the `INCR` that creates it.

* The state carries the keys of Redis with its clock, the failure counter and the requests. Besides,
  `verifiedWrong` counts the wrong passwords that were verified since the counter last expired: the
  budget window is the life of the counter.
* `verify_password` and `hash_password` are a parameter; a salt is drawn when a hash is made.

`changePassword_budget` says what bounds what: the number of wrong passwords is bounded when the
guard admits nobody on account of failures that are still to be recorded and no record is lost; the
counter always has an expiry exactly when no record ever creates it, and apart from the moment
between the two commands when neither command fails on a new counter.
-/

namespace IChat.Auth

open StepSystem

/-- The settings of the guard. -/
structure PasswordSettings where
  ipLimit : ℕ
  ipWindowSeconds : ℕ
  userLimit : ℕ
  userWindowSeconds : ℕ

def PasswordSettings.default : PasswordSettings := ⟨10, 3600, 5, 900⟩

/-- `hash_password`, with its salt, and `verify_password`. -/
structure PasswordHasher where
  hash : (salt password : String) → String
  verify : (password hash : String) → Bool

/-! ### The failure counter -/

/-- The key `auth:fail:change_password:user:…`. -/
structure FailureCounter where
  count : ℕ
  expiresAt : Option ℕ
  deriving DecidableEq, Repr

/-- What `check_failure_budget` makes of the answer of `GET`. -/
def failureCount : Option FailureCounter → ℕ
  | none => 0
  | some counter => counter.count

/-- `TTL`. -/
def failureTtl (clock : ℕ) : Option FailureCounter → ℤ
  | none => -2
  | some ⟨_, none⟩ => -1
  | some ⟨_, some expiresAt⟩ => (expiresAt - clock + 500) / 1000

/-- `INCR`. -/
def incrFailures : Option FailureCounter → Option FailureCounter × ℕ
  | none => (some ⟨1, none⟩, 1)
  | some counter => (some { counter with count := counter.count + 1 }, counter.count + 1)

/-- `EXPIRE key window_seconds`. -/
def expireFailures (clock windowSeconds : ℕ) (failures : Option FailureCounter) :
    Option FailureCounter × Bool :=
  (if windowSeconds = 0 then none
    else failures.map fun counter =>
      { counter with expiresAt := some (clock + windowSeconds * 1000) },
    failures.isSome)

/-! ### The requests -/

/-- What the client sees. -/
inductive PasswordResponse
  | tooManyRequests (retryAfterSeconds : ℕ) (detail : String)
  | badRequest (detail : String)
  | success
  deriving DecidableEq, Repr

def changePasswordAction : String := "change_password"

/-- Where a request stands: before the window of its IP, before the `GET` of the budget, before the
`TTL` of a spent budget, behind the guard, before `INCR`, before `EXPIRE`, before the commit. -/
inductive PasswordPhase
  | arrived | checked | spent | admitted | wrong | created
  | matched (newHash : String)
  | ended (response : PasswordResponse)
  deriving DecidableEq, Repr

structure PasswordRequest where
  clientIp : String
  currentPassword : String
  newPassword : String
  /-- `user.password_hash` as `get_current_user` loaded it. -/
  passwordHash : String
  phase : PasswordPhase
  deriving DecidableEq, Repr

/-- The user, Redis and the requests. -/
structure PasswordWorld where
  /-- The clock of Redis, in milliseconds. -/
  clock : ℕ
  redis : Redis
  failures : Option FailureCounter
  passwordHash : String
  requests : List PasswordRequest
  /-- The wrong passwords that were verified since the counter last expired. -/
  verifiedWrong : ℕ

/-- Before the first request. -/
def PasswordWorld.initial (clock : ℕ) (redis : Redis) (passwordHash : String) : PasswordWorld :=
  ⟨clock, redis, none, passwordHash, [], 0⟩

/-- The counter is gone, and a budget window ends. -/
def PasswordWorld.endWindow (world : PasswordWorld) : PasswordWorld :=
  { world with failures := none, verifiedWrong := 0 }

/-- Redis removes the counter when its time has passed. -/
def PasswordWorld.settle (world : PasswordWorld) : PasswordWorld :=
  match world.failures.bind FailureCounter.expiresAt with
  | some expiresAt => if KeyExpired world.clock expiresAt then world.endWindow else world
  | none => world

/-- Request `i` goes on. -/
def PasswordWorld.goto (world : PasswordWorld) (i : ℕ) (request : PasswordRequest)
    (phase : PasswordPhase) : PasswordWorld :=
  { world with requests := world.requests.set i { request with phase } }

/-- The steps; `i` is the position of a request in the order of arrival. -/
inductive PasswordAction
  | arrive (clientIp currentPassword newPassword : String)
  /-- `check_ip_rate_limit`, where `time.time()` shows `nowMs`. -/
  | checkIp (i nowMs : ℕ) (result : CommandResult)
  | get (i : ℕ) (result : CommandResult)
  | ttl (i : ℕ) (result : CommandResult)
  | verify (i : ℕ) (salt : String)
  | incr (i : ℕ) (result : CommandResult)
  | expire (i : ℕ) (result : CommandResult)
  | commit (i : ℕ)
  | tick (milliseconds : ℕ)
  deriving DecidableEq, Repr

section step

variable (hasher : PasswordHasher) (settings : PasswordSettings)

/-- The guard fails closed. -/
def failClosed : PasswordPhase :=
  .ended (.tooManyRequests settings.userWindowSeconds rateLimitedMessage)

/-- `change_password_guard` up to the answer of the sliding window. -/
def stepCheckIp (world : PasswordWorld) (i nowMs : ℕ) (result : CommandResult)
    (request : PasswordRequest) : PasswordWorld :=
  let (redis, answer) := result.execute
    (checkIpRateLimit world.clock nowMs settings.ipLimit settings.ipWindowSeconds
      (ipRateKey changePasswordAction request.clientIp)) world.redis
  { world with redis }.goto i request <|
    match answer with
    | none => failClosed settings
    | some answer =>
      if answer.allowed then .checked
      else .ended (.tooManyRequests answer.retryAfterSeconds rateLimitedMessage)

/-- `check_failure_budget` up to the answer of `GET`. -/
def stepGet (world : PasswordWorld) (i : ℕ) (result : CommandResult) (request : PasswordRequest) :
    PasswordWorld :=
  world.goto i request <|
    match (result.execute (fun failures => (failures, failureCount failures)) world.failures).2 with
    | none => failClosed settings
    | some count => if count < settings.userLimit then .admitted else .spent

/-- The rest of `check_failure_budget`. -/
def stepTtl (world : PasswordWorld) (i : ℕ) (result : CommandResult) (request : PasswordRequest) :
    PasswordWorld :=
  world.goto i request <|
    match (result.execute (fun failures => (failures, failureTtl world.clock failures))
      world.failures).2 with
    | none => failClosed settings
    | some ttl => .ended (.tooManyRequests (max ttl 1).toNat rateLimitedMessage)

/-- `change_password` up to the verdict on the current password. -/
def stepVerify (world : PasswordWorld) (i : ℕ) (salt : String) (request : PasswordRequest) :
    PasswordWorld :=
  if hasher.verify request.currentPassword request.passwordHash then
    world.goto i request (.matched (hasher.hash salt request.newPassword))
  else
    { world with verifiedWrong := world.verifiedWrong + 1 }.goto i request .wrong

/-- The response to a wrong password, which comes whatever `record_failure` meets. -/
def incorrect : PasswordPhase := .ended (.badRequest invalidCurrentPasswordMessage)

/-- `record_failure` up to the answer of `INCR`; it swallows an exception. -/
def stepIncr (world : PasswordWorld) (i : ℕ) (result : CommandResult) (request : PasswordRequest) :
    PasswordWorld :=
  let (failures, answer) := result.execute incrFailures world.failures
  { world with failures }.goto i request (if answer = some 1 then .created else incorrect)

/-- The rest of `record_failure`. -/
def stepExpire (world : PasswordWorld) (i : ℕ) (result : CommandResult)
    (request : PasswordRequest) : PasswordWorld :=
  let failures := (result.execute (expireFailures world.clock settings.userWindowSeconds)
    world.failures).1
  (if world.failures ≠ none ∧ failures = none then world.endWindow else
    { world with failures }).goto
    i request incorrect

/-- One step of the user's requests. -/
def passwordStep (world : PasswordWorld) : PasswordAction → Option PasswordWorld
  | .arrive clientIp currentPassword newPassword =>
    some { world with
      requests := world.requests ++
        [⟨clientIp, currentPassword, newPassword, world.passwordHash, .arrived⟩] }
  | .checkIp i nowMs result =>
    (world.requests[i]?.filter (·.phase = .arrived)).map (stepCheckIp settings world i nowMs result)
  | .get i result =>
    (world.requests[i]?.filter (·.phase = .checked)).map (stepGet settings world i result)
  | .ttl i result =>
    (world.requests[i]?.filter (·.phase = .spent)).map (stepTtl settings world i result)
  | .verify i salt =>
    (world.requests[i]?.filter (·.phase = .admitted)).map (stepVerify hasher world i salt)
  | .incr i result =>
    (world.requests[i]?.filter (·.phase = .wrong)).map (stepIncr world i result)
  | .expire i result =>
    (world.requests[i]?.filter (·.phase = .created)).map (stepExpire settings world i result)
  | .commit i =>
    world.requests[i]?.bind fun request =>
      match request.phase with
      | .matched newHash =>
        some ({ world with passwordHash := newHash }.goto i request (.ended .success))
      | _ => none
  | .tick milliseconds => some { world with clock := world.clock + milliseconds }.settle

end step

/-! ### What a step changes -/

section changes

variable {hasher : PasswordHasher} {settings : PasswordSettings}
variable {world world' : PasswordWorld} {request : PasswordRequest} {i : ℕ}

/-- The number of requests whose phase is as told. -/
def PasswordWorld.count (world : PasswordWorld) (p : PasswordPhase → Bool) : ℕ :=
  world.requests.countP (p ·.phase)

/-- A wrong password was verified and is not recorded. -/
def PasswordPhase.isWrong (phase : PasswordPhase) : Bool := phase = .wrong

/-- The guard let the request through, and a wrong password is still to be recorded. -/
def PasswordPhase.isUnrecorded (phase : PasswordPhase) : Bool :=
  phase = .admitted || phase = .wrong

theorem count_goto (p : PasswordPhase → Bool) (hrequest : world.requests[i]? = some request)
    (phase : PasswordPhase) :
    (world.goto i request phase).count p + (if p request.phase then 1 else 0) =
      world.count p + (if p phase then 1 else 0) :=
  List.countP_set_add hrequest _

theorem settle_cases (world : PasswordWorld) :
    world.settle = world ∨ world.settle = world.endWindow := by
  rw [PasswordWorld.settle]
  split
  · split_ifs
    · exact .inr rfl
    · exact .inl rfl
  · exact .inl rfl

@[simp] theorem settle_requests (world : PasswordWorld) :
    world.settle.requests = world.requests := by
  rcases settle_cases world with heq | heq <;> rw [heq]
  rfl

/-- `EXPIRE` leaves the count of a counter that it does not delete. -/
theorem failureCount_expireFailures {clock windowSeconds : ℕ} {failures : Option FailureCounter}
    (h : ¬(failures ≠ none ∧ (expireFailures clock windowSeconds failures).1 = none)) :
    failureCount (expireFailures clock windowSeconds failures).1 = failureCount failures := by
  cases failures with
  | none => exact congrArg failureCount (ite_self _)
  | some =>
    rw [expireFailures] at h ⊢
    split_ifs at h ⊢ with hzero
    · exact absurd ⟨Option.some_ne_none _, rfl⟩ h
    · rfl

/-- `EXPIRE` deletes the counter, or leaves its count as it is. -/
theorem stepExpire_cases (world : PasswordWorld) (i : ℕ) (result : CommandResult)
    (request : PasswordRequest) :
    stepExpire settings world i result request = world.endWindow.goto i request incorrect ∨
      ∃ failures, failures = (result.execute (expireFailures world.clock settings.userWindowSeconds)
          world.failures).1 ∧
        failureCount failures = failureCount world.failures ∧
        stepExpire settings world i result request =
          { world with failures }.goto i request incorrect := by
  rw [stepExpire]
  split_ifs with hdeleted
  · exact .inl rfl
  · refine .inr ⟨_, rfl, ?_, rfl⟩
    cases result with
    | lost => rfl
    | answered | unanswered => exact failureCount_expireFailures hdeleted

theorem exists_request {phase : PasswordPhase} {f : PasswordRequest → PasswordWorld}
    (h : (world.requests[i]?.filter (·.phase = phase)).map f = some world') :
    ∃ request, world.requests[i]? = some request ∧ request.phase = phase ∧ world' = f request := by
  obtain ⟨request, hfilter, rfl⟩ := Option.map_eq_some_iff.mp h
  obtain ⟨hrequest, hphase⟩ := Option.filter_eq_some_iff.mp hfilter
  exact ⟨request, hrequest, of_decide_eq_true hphase, rfl⟩

theorem exists_commit (h : passwordStep hasher settings world (.commit i) = some world') :
    ∃ request newHash, world.requests[i]? = some request ∧ request.phase = .matched newHash ∧
      world' = { world with passwordHash := newHash }.goto i request (.ended .success) := by
  obtain ⟨request, hrequest, hmatch⟩ := Option.bind_eq_some_iff.mp h
  split at hmatch
  · next newHash hphase => exact ⟨request, newHash, hrequest, hphase, (Option.some.inj hmatch).symm⟩
  · cases hmatch

end changes

/-! ### How many wrong passwords are verified -/

section budget

variable {hasher : PasswordHasher} {settings : PasswordSettings}
variable {world world' : PasswordWorld} {request : PasswordRequest} {i : ℕ}

/-- The guard admits nobody whose failure would be one too many once the failures of the requests
that it admitted before are recorded, and no record is lost. -/
def CountsUnrecorded (settings : PasswordSettings) (world : PasswordWorld) : PasswordAction → Prop
  | .get _ result =>
    result = .answered → failureCount world.failures < settings.userLimit →
      failureCount world.failures + world.count PasswordPhase.isUnrecorded < settings.userLimit
  | .incr _ result => result ≠ .lost
  | _ => True

instance : ∀ world action, Decidable (CountsUnrecorded settings world action)
  | _, .get .. => inferInstanceAs (Decidable (_ → _ → _))
  | _, .incr .. => inferInstanceAs (Decidable (_ ≠ _))
  | _, .arrive .. | _, .checkIp .. | _, .ttl .. | _, .verify .. | _, .expire .. | _, .commit _
  | _, .tick _ => inferInstanceAs (Decidable True)

/-- The property: no more wrong passwords in a window than the limit allows. -/
def WithinBudget (settings : PasswordSettings) (world : PasswordWorld) : Prop :=
  world.verifiedWrong ≤ settings.userLimit

instance : Decidable (WithinBudget settings world) := inferInstanceAs (Decidable (_ ≤ _))

/-- What carries it: the verified passwords are recorded or about to be, and the budget covers the
records with all that may still come. -/
structure Budgeted (settings : PasswordSettings) (world : PasswordWorld) : Prop where
  verified : world.verifiedWrong ≤ failureCount world.failures + world.count PasswordPhase.isWrong
  covered :
    failureCount world.failures + world.count PasswordPhase.isUnrecorded ≤ settings.userLimit

theorem Budgeted.withinBudget (h : Budgeted settings world) : WithinBudget settings world := by
  have hle : world.count PasswordPhase.isWrong ≤ world.count PasswordPhase.isUnrecorded := by
    refine List.countP_mono_left fun request _ hwrong => ?_
    rw [PasswordPhase.isUnrecorded, Bool.or_eq_true]
    exact .inr hwrong
  have hverified := h.verified
  have hcovered := h.covered
  rw [WithinBudget]
  omega

/-- The end of a window leaves nothing to count. -/
theorem Budgeted.endWindow (h : Budgeted settings world) : Budgeted settings world.endWindow := by
  have hcovered := h.covered
  refine ⟨Nat.zero_le _, ?_⟩
  change 0 + world.count PasswordPhase.isUnrecorded ≤ settings.userLimit
  omega

theorem Budgeted.settle (h : Budgeted settings world) : Budgeted settings world.settle := by
  rcases settle_cases world with heq | heq
  · rwa [heq]
  · rw [heq]
    exact h.endWindow

/-- A request goes on without a verdict on a password, from a phase that promises no record or to
one that promises none. -/
theorem Budgeted.goto (h : Budgeted settings world) (hrequest : world.requests[i]? = some request)
    {phase : PasswordPhase} (hwrong : request.phase ≠ .wrong) (hphase : phase ≠ .wrong)
    (hadmitted : phase = .admitted →
      failureCount world.failures + world.count PasswordPhase.isUnrecorded < settings.userLimit) :
    Budgeted settings (world.goto i request phase) := by
  have hverified := h.verified
  have hcovered := h.covered
  have hwrongs := count_goto PasswordPhase.isWrong hrequest phase
  have hall := count_goto PasswordPhase.isUnrecorded hrequest phase
  simp only [PasswordPhase.isWrong, hwrong, hphase, decide_false, Bool.false_eq_true, if_false,
    Nat.add_zero] at hwrongs
  simp only [PasswordPhase.isUnrecorded, hwrong, hphase, decide_false, Bool.or_false,
    decide_eq_true_eq] at hall
  refine ⟨?_, ?_⟩
  · change world.verifiedWrong ≤
      failureCount world.failures + (world.goto i request phase).count PasswordPhase.isWrong
    omega
  · change failureCount world.failures + (world.goto i request phase).count
      PasswordPhase.isUnrecorded ≤ settings.userLimit
    by_cases hto : phase = .admitted
    · have hroom := hadmitted hto
      rw [if_pos hto] at hall
      omega
    · rw [if_neg hto] at hall
      omega

/-- A new request promises nothing. -/
theorem Budgeted.arrive (h : Budgeted settings world) (clientIp current new : String) :
    Budgeted settings { world with
      requests := world.requests ++ [⟨clientIp, current, new, world.passwordHash, .arrived⟩] } := by
  have hcount : ∀ (p : PasswordPhase → Bool) (request : PasswordRequest),
      p request.phase = false → (world.requests ++ [request]).countP (p ·.phase) =
        world.requests.countP (p ·.phase) := by
    intro p request hp
    rw [List.countP_append, List.countP_singleton, hp, if_neg Bool.false_ne_true, Nat.add_zero]
  refine ⟨?_, ?_⟩
  · rw [PasswordWorld.count, hcount PasswordPhase.isWrong _ rfl]
    exact h.verified
  · rw [PasswordWorld.count, hcount PasswordPhase.isUnrecorded _ rfl]
    exact h.covered

/-- The verdict on a password. -/
theorem Budgeted.stepVerify (h : Budgeted settings world)
    (hrequest : world.requests[i]? = some request) (hphase : request.phase = .admitted)
    (salt : String) : Budgeted settings (stepVerify hasher world i salt request) := by
  have hne : request.phase ≠ .wrong := by simp [hphase]
  rw [Auth.stepVerify]
  split_ifs
  · exact h.goto hrequest hne PasswordPhase.noConfusion fun h => PasswordPhase.noConfusion h
  · -- the verdict moves the request from those admitted to those that will record
    have hwrongs := count_goto PasswordPhase.isWrong hrequest .wrong
    have hall := count_goto PasswordPhase.isUnrecorded hrequest .wrong
    rw [hphase] at hwrongs hall
    have hverified := h.verified
    have hcovered := h.covered
    refine ⟨?_, ?_⟩
    · change world.verifiedWrong + 1 ≤
        failureCount world.failures + (world.goto i request .wrong).count PasswordPhase.isWrong
      simp only [PasswordPhase.isWrong, reduceCtorEq, decide_false, Bool.false_eq_true, if_false,
        decide_true, if_true] at hwrongs
      omega
    · change failureCount world.failures + (world.goto i request .wrong).count
        PasswordPhase.isUnrecorded ≤ settings.userLimit
      simp only [PasswordPhase.isUnrecorded, reduceCtorEq, decide_false, decide_true,
        Bool.or_false, Bool.or_true, if_true] at hall
      omega

theorem failureCount_incrFailures (failures : Option FailureCounter) :
    failureCount (incrFailures failures).1 = failureCount failures + 1 := by
  cases failures <;> rfl

/-- A command that is not lost has its effect. -/
theorem execute_fst_of_ne_lost {σ β : Type} {effect : σ → σ × β} {state : σ}
    {result : CommandResult} (h : result ≠ .lost) :
    (result.execute effect state).1 = (effect state).1 := by
  cases result with
  | answered => rfl
  | lost => exact absurd rfl h
  | unanswered => rfl

/-- The record of a wrong password. -/
theorem Budgeted.stepIncr (h : Budgeted settings world)
    (hrequest : world.requests[i]? = some request) (hphase : request.phase = .wrong)
    {result : CommandResult} (hresult : result ≠ .lost) :
    Budgeted settings (stepIncr world i result request) := by
  obtain ⟨phase, hto, heq⟩ : ∃ phase : PasswordPhase, (phase = .created ∨ phase = incorrect) ∧
      Auth.stepIncr world i result request =
        { world with failures := (incrFailures world.failures).1 }.goto i request phase := by
    refine ⟨_, ?_, by rw [Auth.stepIncr, ← execute_fst_of_ne_lost hresult]⟩
    split_ifs
    · exact .inl rfl
    · exact .inr rfl
  rw [heq]
  have hwrongs := count_goto PasswordPhase.isWrong hrequest phase
  have hall := count_goto PasswordPhase.isUnrecorded hrequest phase
  have hno : phase.isWrong = false ∧ phase.isUnrecorded = false := by
    rcases hto with rfl | rfl <;> exact ⟨rfl, rfl⟩
  rw [hphase, hno.1] at hwrongs
  rw [hphase, hno.2] at hall
  have hverified := h.verified
  have hcovered := h.covered
  have hcount := failureCount_incrFailures world.failures
  refine ⟨?_, ?_⟩
  · change world.verifiedWrong ≤ failureCount (incrFailures world.failures).1 +
      (world.goto i request phase).count PasswordPhase.isWrong
    simp only [PasswordPhase.isWrong, decide_true, if_true, Bool.false_eq_true, if_false] at hwrongs
    omega
  · change failureCount (incrFailures world.failures).1 +
      (world.goto i request phase).count PasswordPhase.isUnrecorded ≤ settings.userLimit
    simp only [PasswordPhase.isUnrecorded, decide_true, Bool.or_true, if_true, Bool.false_eq_true,
      if_false] at hall
    omega

/-- **Step**: under the condition, the budget goes on to cover what may come. -/
theorem Budgeted.step (h : Budgeted settings world) {action : PasswordAction}
    (hmeets : CountsUnrecorded settings world action)
    (hstep : passwordStep hasher settings world action = some world') :
    Budgeted settings world' := by
  cases action with
  | arrive clientIp current new =>
    cases hstep
    exact h.arrive clientIp current new
  | checkIp i nowMs result =>
    obtain ⟨request, hrequest, hphase, rfl⟩ := exists_request hstep
    have hne : request.phase ≠ .wrong := by simp [hphase]
    have hredis : ∀ redis, Budgeted settings { world with redis } :=
      fun redis => ⟨h.verified, h.covered⟩
    rw [stepCheckIp]
    generalize result.execute _ world.redis = outcome
    obtain ⟨redis, answer⟩ := outcome
    cases answer with
    | none =>
      exact (hredis redis).goto hrequest hne PasswordPhase.noConfusion
        fun hto => PasswordPhase.noConfusion hto
    | some =>
      refine (hredis redis).goto hrequest hne ?_ fun hto => absurd hto ?_ <;>
        dsimp only <;> split_ifs <;> simp
  | get i result =>
    obtain ⟨request, hrequest, hphase, rfl⟩ := exists_request hstep
    have hne : request.phase ≠ .wrong := by simp [hphase]
    rw [stepGet]
    cases result with
    | answered =>
      refine h.goto hrequest hne ?_ fun hto => ?_
      · dsimp only [CommandResult.execute]
        split_ifs <;> exact PasswordPhase.noConfusion
      -- only a count below the maximum goes on, and then the condition holds
      · refine hmeets rfl ?_
        dsimp only [CommandResult.execute] at hto
        by_contra hover
        rw [if_neg hover] at hto
        cases hto
    | lost | unanswered =>
      exact h.goto hrequest hne PasswordPhase.noConfusion fun hto => PasswordPhase.noConfusion hto
  | ttl =>
    obtain ⟨request, hrequest, hphase, rfl⟩ := exists_request hstep
    have hne : request.phase ≠ .wrong := by simp [hphase]
    rw [stepTtl]
    refine h.goto hrequest hne ?_ fun hto => absurd hto ?_ <;>
      split <;> exact PasswordPhase.noConfusion
  | verify i salt =>
    obtain ⟨request, hrequest, hphase, rfl⟩ := exists_request hstep
    exact h.stepVerify hrequest hphase salt
  | incr =>
    obtain ⟨request, hrequest, hphase, rfl⟩ := exists_request hstep
    exact h.stepIncr hrequest hphase hmeets
  | expire i result =>
    obtain ⟨request, hrequest, hphase, rfl⟩ := exists_request hstep
    have hne : request.phase ≠ .wrong := by simp [hphase]
    rcases stepExpire_cases world i result request with heq | ⟨failures, -, hcount, heq⟩
    · rw [heq]
      exact h.endWindow.goto hrequest hne PasswordPhase.noConfusion
        fun hto => PasswordPhase.noConfusion hto
    · have hfailures : Budgeted settings { world with failures } :=
        ⟨hcount ▸ h.verified, hcount ▸ h.covered⟩
      rw [heq]
      exact hfailures.goto hrequest hne PasswordPhase.noConfusion
        fun hto => PasswordPhase.noConfusion hto
  | commit =>
    obtain ⟨request, newHash, hrequest, hphase, rfl⟩ := exists_commit hstep
    have hne : request.phase ≠ .wrong := by simp [hphase]
    have hhash : Budgeted settings { world with passwordHash := newHash } :=
      ⟨h.verified, h.covered⟩
    exact hhash.goto hrequest hne PasswordPhase.noConfusion fun hto => PasswordPhase.noConfusion hto
  | tick =>
    cases hstep
    exact Budgeted.settle ⟨h.verified, h.covered⟩

theorem budgeted_initial (clock : ℕ) (redis : Redis) (passwordHash : String) :
    Budgeted settings (.initial clock redis passwordHash) :=
  ⟨Nat.zero_le _, Nat.zero_le _⟩

end budget

/-! ### When the counter expires -/

section expiry

variable {hasher : PasswordHasher} {settings : PasswordSettings}
variable {world world' : PasswordWorld} {request : PasswordRequest} {i : ℕ}

/-- The property: a counter has an expiry. -/
def HasExpiry (world : PasswordWorld) : Prop :=
  ∀ counter, world.failures = some counter → counter.count ≠ 0 → counter.expiresAt ≠ none

/-- No record creates the counter. -/
def CreatesNoCounter (world : PasswordWorld) : PasswordAction → Prop
  | .incr _ result => result ≠ .lost → world.failures ≠ none
  | _ => True

/-- No command behind the creation of the counter fails: the record that creates it is answered,
and the expiry is set. -/
def SetsExpiry (world : PasswordWorld) : PasswordAction → Prop
  | .incr _ result => result = .unanswered → world.failures ≠ none
  | .expire _ result => result ≠ .lost
  | _ => True

instance : ∀ world action, Decidable (SetsExpiry world action)
  | _, .incr .. => inferInstanceAs (Decidable (_ → _ ≠ _))
  | _, .expire .. => inferInstanceAs (Decidable (_ ≠ _))
  | _, .arrive .. | _, .checkIp .. | _, .get .. | _, .ttl .. | _, .verify .. | _, .commit _
  | _, .tick _ => inferInstanceAs (Decidable True)

theorem settle_failures (world : PasswordWorld) :
    world.settle.failures = world.failures ∨ world.settle.failures = none := by
  rcases settle_cases world with heq | heq
  · exact .inl (by rw [heq])
  · exact .inr (by rw [heq]; rfl)

theorem settle_clock (world : PasswordWorld) : world.settle.clock = world.clock := by
  rcases settle_cases world with heq | heq <;> rw [heq]
  rfl

/-- Only `INCR`, `EXPIRE` and the passing of time change the counter. -/
theorem failures_of_step {action : PasswordAction}
    (hstep : passwordStep hasher settings world action = some world') :
    (∃ i result, action = .incr i result ∧
      world'.failures = (result.execute incrFailures world.failures).1) ∨
    (∃ i result, action = .expire i result ∧
      (world'.failures = (result.execute (expireFailures world.clock settings.userWindowSeconds)
        world.failures).1 ∨ world'.failures = none)) ∨
    (∃ milliseconds, action = .tick milliseconds ∧
      (world'.failures = world.failures ∨ world'.failures = none)) ∨
    (∀ i result, action ≠ .incr i result) ∧ (∀ i result, action ≠ .expire i result) ∧
      world'.failures = world.failures := by
  cases action with
  | arrive =>
    cases hstep
    exact .inr (.inr (.inr ⟨nofun, nofun, rfl⟩))
  | checkIp | get | ttl =>
    obtain ⟨request, hrequest, hphase, rfl⟩ := exists_request hstep
    exact .inr (.inr (.inr ⟨nofun, nofun, rfl⟩))
  | verify =>
    obtain ⟨request, hrequest, hphase, rfl⟩ := exists_request hstep
    refine .inr (.inr (.inr ⟨nofun, nofun, ?_⟩))
    rw [stepVerify]
    split_ifs <;> rfl
  | incr i result =>
    obtain ⟨request, hrequest, hphase, rfl⟩ := exists_request hstep
    exact .inl ⟨i, result, rfl, rfl⟩
  | expire i result =>
    obtain ⟨request, hrequest, hphase, rfl⟩ := exists_request hstep
    refine .inr (.inl ⟨i, result, rfl, ?_⟩)
    rcases stepExpire_cases world i result request with heq | ⟨failures, rfl, -, heq⟩
    · exact .inr (by rw [heq]; rfl)
    · exact .inl (by rw [heq]; rfl)
  | commit =>
    obtain ⟨request, newHash, hrequest, hphase, rfl⟩ := exists_commit hstep
    exact .inr (.inr (.inr ⟨nofun, nofun, rfl⟩))
  | tick milliseconds =>
    cases hstep
    exact .inr (.inr (.inl ⟨milliseconds, rfl, settle_failures _⟩))

/-- A counter was incremented when it was created. -/
def NonzeroCounter (world : PasswordWorld) : Prop :=
  ∀ counter, world.failures = some counter → counter.count ≠ 0

theorem nonzero_incrFailures {failures : Option FailureCounter} {counter : FailureCounter}
    (h : (incrFailures failures).1 = some counter) : counter.count ≠ 0 := by
  cases failures <;> cases h <;> exact Nat.succ_ne_zero _

/-- What `EXPIRE` leaves of a counter. -/
theorem expireFailures_eq_some {clock windowSeconds : ℕ}
    {failures : Option FailureCounter} {counter : FailureCounter}
    (h : (expireFailures clock windowSeconds failures).1 = some counter) :
    ∃ old, failures = some old ∧ counter.count = old.count ∧
      counter.expiresAt = some (clock + windowSeconds * 1000) := by
  rw [expireFailures] at h
  dsimp only at h
  split_ifs at h
  obtain ⟨old, hold, rfl⟩ := Option.map_eq_some_iff.mp h
  exact ⟨old, hold, rfl, rfl⟩

/-- What a command leaves is what was there, or what the command makes of it. -/
theorem execute_fst_cases {σ β : Type} (effect : σ → σ × β) (state : σ) (result : CommandResult) :
    (result = .lost ∧ (result.execute effect state).1 = state) ∨
      (result ≠ .lost ∧ (result.execute effect state).1 = (effect state).1) := by
  cases result with
  | lost => exact .inl ⟨rfl, rfl⟩
  | answered | unanswered => exact .inr ⟨CommandResult.noConfusion, rfl⟩

theorem NonzeroCounter.step (h : NonzeroCounter world) {action : PasswordAction}
    (hstep : passwordStep hasher settings world action = some world') : NonzeroCounter world' := by
  intro counter hcounter
  rcases failures_of_step hstep with ⟨i, result, rfl, hfailures⟩ |
    ⟨i, result, rfl, hfailures | hfailures⟩ | ⟨milliseconds, rfl, hfailures | hfailures⟩ |
    ⟨-, -, hfailures⟩
  · rcases execute_fst_cases incrFailures world.failures result with ⟨-, heq⟩ | ⟨-, heq⟩
    · exact h counter (by rw [← hcounter, hfailures, heq])
    · exact nonzero_incrFailures (by rw [← hcounter, hfailures, heq])
  · rcases execute_fst_cases (expireFailures world.clock settings.userWindowSeconds) world.failures
      result with ⟨-, heq⟩ | ⟨-, heq⟩
    · exact h counter (by rw [← hcounter, hfailures, heq])
    · rw [hfailures, heq] at hcounter
      obtain ⟨old, hold, hcount, -⟩ := expireFailures_eq_some hcounter
      rw [hcount]
      exact h old hold
  · rw [hfailures] at hcounter
    cases hcounter
  · exact h counter (by rw [← hcounter, hfailures])
  · rw [hfailures] at hcounter
    cases hcounter
  · exact h counter (by rw [← hcounter, hfailures])

/-- **Exact step**: the counter goes on to have an expiry exactly when the step does not create
it. -/
theorem hasExpiry_step_iff {action : PasswordAction} (hnonzero : NonzeroCounter world)
    (h : HasExpiry world) (hstep : passwordStep hasher settings world action = some world') :
    HasExpiry world' ↔ CreatesNoCounter world action := by
  have hkeep : world'.failures = world.failures ∨ world'.failures = none → HasExpiry world' := by
    rintro (hsame | hnone) counter hcounter
    · exact h counter (hsame ▸ hcounter)
    · rw [hnone] at hcounter
      cases hcounter
  rcases failures_of_step hstep with ⟨i, result, rfl, hfailures⟩ | ⟨i, result, rfl, hfailures⟩ |
    ⟨milliseconds, rfl, hfailures⟩ | ⟨hincr, -, hfailures⟩
  · rcases execute_fst_cases incrFailures world.failures result with ⟨hlost, heq⟩ | ⟨hlost, heq⟩
    · rw [heq] at hfailures
      exact iff_of_true (hkeep (.inl hfailures)) fun hne => absurd hlost hne
    · rw [heq] at hfailures
      constructor
      · intro hafter _ hnone
        rw [hnone] at hfailures
        exact hafter _ hfailures Nat.one_ne_zero rfl
      · intro hcreates counter hcounter _
        obtain ⟨old, hold⟩ := Option.ne_none_iff_exists'.mp (hcreates hlost)
        rw [hfailures, hold] at hcounter
        cases hcounter
        exact h old hold (hnonzero old hold)
  · refine iff_of_true ?_ trivial
    rcases hfailures with hfailures | hfailures
    · rcases execute_fst_cases (expireFailures world.clock settings.userWindowSeconds)
        world.failures result with ⟨-, heq⟩ | ⟨-, heq⟩
      · exact hkeep (.inl (by rw [hfailures, heq]))
      · intro counter hcounter _
        rw [hfailures, heq] at hcounter
        obtain ⟨old, -, -, hexpires⟩ := expireFailures_eq_some hcounter
        rw [hexpires]
        exact Option.some_ne_none _
    · exact hkeep (.inr hfailures)
  · exact iff_of_true (hkeep hfailures) trivial
  · refine iff_of_true (hkeep (.inl hfailures)) ?_
    cases action with
    | incr i result => exact absurd rfl (hincr i result)
    | arrive | checkIp | get | ttl | verify | expire | commit | tick => trivial

/-- Some request is between the creation of the counter and its expiry. -/
def Creating (requests : List PasswordRequest) : Prop :=
  ∃ request ∈ requests, request.phase = .created

theorem Creating.set {requests : List PasswordRequest} (h : Creating requests)
    (hrequest : requests[i]? = some request) (hne : request.phase ≠ .created)
    (new : PasswordRequest) : Creating (requests.set i new) := by
  obtain ⟨other, hmem, hcreated⟩ := h
  obtain ⟨j, hj⟩ := List.mem_iff_getElem?.mp hmem
  have hij : i ≠ j := by
    rintro rfl
    rw [hrequest] at hj
    exact hne (by rw [Option.some.inj hj, hcreated])
  exact ⟨other, List.mem_iff_getElem?.mpr ⟨j, by rw [List.getElem?_set_ne hij, hj]⟩, hcreated⟩

/-- Only `EXPIRE` takes a request from that place. -/
theorem Creating.step (h : Creating world.requests) {action : PasswordAction}
    (hstep : passwordStep hasher settings world action = some world')
    (hexpire : ∀ i result, action ≠ .expire i result) : Creating world'.requests := by
  cases action with
  | arrive =>
    cases hstep
    obtain ⟨request, hmem, hcreated⟩ := h
    exact ⟨request, List.mem_append_left _ hmem, hcreated⟩
  | checkIp | get | ttl | incr =>
    obtain ⟨request, hrequest, hphase, rfl⟩ := exists_request hstep
    exact h.set hrequest (by rw [hphase]; exact PasswordPhase.noConfusion) _
  | verify =>
    obtain ⟨request, hrequest, hphase, rfl⟩ := exists_request hstep
    have hne : request.phase ≠ .created := by rw [hphase]; exact PasswordPhase.noConfusion
    rw [stepVerify]
    split_ifs <;> exact h.set hrequest hne _
  | expire i result => exact absurd rfl (hexpire i result)
  | commit =>
    obtain ⟨request, newHash, hrequest, hphase, rfl⟩ := exists_commit hstep
    exact h.set hrequest (by rw [hphase]; exact PasswordPhase.noConfusion) _
  | tick =>
    cases hstep
    rw [settle_requests]
    exact h

theorem clock_le_of_step {action : PasswordAction}
    (hstep : passwordStep hasher settings world action = some world') :
    world.clock ≤ world'.clock := by
  cases action with
  | arrive =>
    cases hstep
    exact le_rfl
  | checkIp | get | ttl | incr =>
    obtain ⟨request, hrequest, hphase, rfl⟩ := exists_request hstep
    exact le_rfl
  | verify =>
    obtain ⟨request, hrequest, hphase, rfl⟩ := exists_request hstep
    rw [stepVerify]
    split_ifs <;> exact le_rfl
  | expire i result =>
    obtain ⟨request, hrequest, hphase, rfl⟩ := exists_request hstep
    rcases stepExpire_cases world i result request with heq | ⟨failures, -, -, heq⟩ <;>
      exact (congrArg PasswordWorld.clock heq).ge
  | commit =>
    obtain ⟨request, newHash, hrequest, hphase, rfl⟩ := exists_commit hstep
    exact le_rfl
  | tick milliseconds =>
    cases hstep
    rw [settle_clock]
    exact Nat.le_add_right _ milliseconds

/-- The counter ends within a window, unless a request is about to set its expiry. -/
def EndsWithinWindow (settings : PasswordSettings) (world : PasswordWorld) : Prop :=
  ∀ counter, world.failures = some counter →
    (counter.expiresAt = none ∧ Creating world.requests) ∨
    ∃ expiresAt, counter.expiresAt = some expiresAt ∧
      expiresAt ≤ world.clock + settings.userWindowSeconds * 1000

/-- **Step**: when the commands behind the creation of a counter do not fail, it ends. -/
theorem EndsWithinWindow.step (h : EndsWithinWindow settings world)
    {action : PasswordAction} (hmeets : SetsExpiry world action)
    (hstep : passwordStep hasher settings world action = some world') :
    EndsWithinWindow settings world' := by
  intro counter hcounter
  have hclock := clock_le_of_step hstep
  -- what the old counter promises still holds of a counter with the same expiry
  have hold : ∀ old, world.failures = some old → counter.expiresAt = old.expiresAt →
      (∀ i result, action ≠ .expire i result) →
      (counter.expiresAt = none ∧ Creating world'.requests) ∨
        ∃ expiresAt, counter.expiresAt = some expiresAt ∧
          expiresAt ≤ world'.clock + settings.userWindowSeconds * 1000 := by
    intro old hsome heq hexpire
    rcases h old hsome with ⟨hnone, hcreating⟩ | ⟨expiresAt, hexpires, hle⟩
    · exact .inl ⟨heq.trans hnone, hcreating.step hstep hexpire⟩
    · exact .inr ⟨expiresAt, heq.trans hexpires, hle.trans (Nat.add_le_add_right hclock _)⟩
  rcases failures_of_step hstep with ⟨i, result, rfl, hfailures⟩ |
    ⟨i, result, rfl, hfailures | hfailures⟩ | ⟨milliseconds, rfl, hfailures | hfailures⟩ |
    ⟨-, hexpire, hfailures⟩
  · rcases execute_fst_cases incrFailures world.failures result with ⟨-, heq⟩ | ⟨hlost, heq⟩
    · exact hold counter (by rw [← hcounter, hfailures, heq]) rfl nofun
    · rw [hfailures, heq] at hcounter
      cases hbefore : world.failures with
      | some old =>
        rw [hbefore] at hcounter
        cases hcounter
        exact hold old hbefore rfl nofun
      | none =>
        -- the record that creates the counter is answered, and sends its request to `EXPIRE`
        rw [hbefore] at hcounter
        cases hcounter
        refine .inl ⟨rfl, ?_⟩
        have hanswered : result = .answered := by
          cases result with
          | answered => rfl
          | lost => exact absurd rfl hlost
          | unanswered => exact absurd hbefore (hmeets rfl)
        subst hanswered
        obtain ⟨request, hrequest, -, rfl⟩ := exists_request hstep
        obtain ⟨hlt, -⟩ := List.getElem?_eq_some_iff.mp hrequest
        refine ⟨{ request with phase := .created },
          List.mem_iff_getElem?.mpr ⟨i, (List.getElem?_set_self hlt).trans ?_⟩, rfl⟩
        rw [hbefore]
        rfl
  · rcases execute_fst_cases (expireFailures world.clock settings.userWindowSeconds) world.failures
      result with ⟨hlost, -⟩ | ⟨-, heq⟩
    · exact absurd hlost hmeets
    · rw [hfailures, heq] at hcounter
      obtain ⟨old, -, -, hexpires⟩ := expireFailures_eq_some hcounter
      exact .inr ⟨_, hexpires, Nat.add_le_add_right hclock _⟩
  · rw [hfailures] at hcounter
    cases hcounter
  · exact hold counter (by rw [← hcounter, hfailures]) rfl nofun
  · rw [hfailures] at hcounter
    cases hcounter
  · exact hold counter (by rw [← hcounter, hfailures]) rfl hexpire

end expiry

/-- **The budget of wrong passwords.** No more wrong passwords than the limit are verified in a
window of a run where the guard takes the failures into account that are still to be recorded, and
no record is lost. The counter has an expiry in all states of a run exactly when no record creates
it. In a run where the record that creates it is answered and no `EXPIRE` is lost, it ends within a
window, unless a request is about to set its expiry. -/
theorem changePassword_budget (hasher : PasswordHasher) (settings : PasswordSettings) (clock : ℕ)
    (redis : Redis) (passwordHash : String) {actions : List PasswordAction}
    {world : PasswordWorld}
    (hrun : run (passwordStep hasher settings) (.initial clock redis passwordHash) actions =
      some world) :
    (Along (passwordStep hasher settings) (CountsUnrecorded settings)
        (.initial clock redis passwordHash) actions →
      Throughout (passwordStep hasher settings) (WithinBudget settings)
        (.initial clock redis passwordHash) actions) ∧
    (Throughout (passwordStep hasher settings) HasExpiry (.initial clock redis passwordHash)
        actions ↔
      Along (passwordStep hasher settings) CreatesNoCounter (.initial clock redis passwordHash)
        actions) ∧
    (Along (passwordStep hasher settings) SetsExpiry (.initial clock redis passwordHash) actions →
      Throughout (passwordStep hasher settings) (EndsWithinWindow settings)
        (.initial clock redis passwordHash) actions) := by
  refine ⟨fun halong bs cs before hsplit hbefore => ?_, ?_,
    fun halong bs cs before hsplit hbefore => ?_⟩
  · subst hsplit
    have hbudgeted : Budgeted settings before :=
      run_invariant_along (fun _ _ _ h hmeets hstep => h.step hmeets hstep)
        (budgeted_initial clock redis passwordHash) ((along_append hbefore).mp halong).1 hbefore
    exact hbudgeted.withinBudget
  · exact throughout_iff_along
      (fun before _ _ (h : NonzeroCounter before) hstep => h.step hstep)
      (fun _ _ _ hnonzero h hstep => hasExpiry_step_iff hnonzero h hstep)
      (fun _ => nofun) (fun _ => nofun) hrun
  · subst hsplit
    exact run_invariant_along
      (fun _ _ _ (h : EndsWithinWindow settings _) hmeets hstep => h.step hmeets hstep)
      (fun counter hcounter => by cases hcounter) ((along_append hbefore).mp halong).1 hbefore

/-- A hasher for runs that can be evaluated. -/
def PasswordHasher.example : PasswordHasher := ⟨fun _ password => password, fun p h => p == h⟩

/-- Requests from one address pass their IP window and read the budget, all before any goes on. -/
def readTogether (n : ℕ) : List PasswordAction :=
  List.replicate n (.arrive "ip" "guess" "new") ++
    (List.range n).map (.checkIp · 0 .answered) ++ (List.range n).map (.get · .answered)

/-- The requests before `n`, one after the other, with the result of each `INCR`. -/
def oneByOne (results : List CommandResult) : List PasswordAction :=
  results.zipIdx.flatMap fun (result, i) =>
    [.arrive "ip" "guess" "new", .checkIp i 0 .answered, .get i .answered, .verify i "",
      .incr i result]

/-- A wrong password that is recorded, with the expiry set: the budget and the window hold. -/
theorem changePassword_budget_recorded :
    Throughout (passwordStep .example .default) (WithinBudget .default)
        (.initial 0 ⟨fun _ => none, fun _ => none⟩ "right")
        (oneByOne [.answered] ++ .expire 0 .answered :: [.arrive "ip" "guess" "new"]) ∧
      Throughout (passwordStep .example .default) (EndsWithinWindow .default)
        (.initial 0 ⟨fun _ => none, fun _ => none⟩ "right")
        (oneByOne [.answered] ++ .expire 0 .answered :: [.arrive "ip" "guess" "new"]) := by
  obtain ⟨world, hrun, -⟩ : ∃ world,
      run (passwordStep .example .default) (.initial 0 ⟨fun _ => none, fun _ => none⟩ "right")
        (oneByOne [.answered] ++ .expire 0 .answered :: [.arrive "ip" "guess" "new"]) =
          some world ∧ world.verifiedWrong = 1 := exists_run (by decide +kernel)
  obtain ⟨hbudget, -, hwindow⟩ := changePassword_budget _ _ _ _ _ hrun
  exact ⟨hbudget (by decide +kernel), hwindow (by decide +kernel)⟩

/-- Six requests read the budget before one of them records its failure: six wrong passwords are
verified, and the limit is five. When the first of five records is not answered, the counter has no
expiry, and the user is locked out for good. -/
theorem changePassword_race :
    (∃ world,
      run (passwordStep .example .default) (.initial 0 ⟨fun _ => none, fun _ => none⟩ "right")
        (readTogether 6 ++ (List.range 6).map (.verify · "")) = some world ∧
      ¬WithinBudget .default world) ∧
    ∀ milliseconds, ∃ world,
      run (passwordStep .example .default) (.initial 0 ⟨fun _ => none, fun _ => none⟩ "right")
        (oneByOne (.unanswered :: List.replicate 4 .answered) ++ [.tick milliseconds]) =
          some world ∧
      ¬HasExpiry world ∧ world.failures = some ⟨5, none⟩ := by
  constructor
  · exact exists_run (by decide +kernel)
  · intro milliseconds
    obtain ⟨world, hrun, hfailures⟩ : ∃ world,
        run (passwordStep .example .default)
          (.initial 0 ⟨fun _ => none, fun _ => none⟩ "right")
          (oneByOne (.unanswered :: List.replicate 4 .answered)) = some world ∧
        world.failures = some ⟨5, none⟩ := exists_run (by decide +kernel)
    have hlater :
        ({ world with clock := world.clock + milliseconds } : PasswordWorld).settle.failures =
          some ⟨5, none⟩ := by
      rw [PasswordWorld.settle, hfailures]
      rfl
    exact ⟨_, run_append.mpr ⟨world, hrun, rfl⟩,
      fun hexpiry => hexpiry _ hlater (Nat.succ_ne_zero 4) rfl, hlater⟩

end IChat.Auth
