import Mathlib.Data.List.MinMax
import Mathlib.Data.List.Nodup
import IChat.Auth.RateLimit
import IChat.General.Answers

/-!
# Password-reset requests

`request_password_reset`, one call after another. A call passes the sliding window of its IP, then
claims the cooldown of the email in Redis; when that command fails, the latest token sent to the
email takes the place of the cooldown. Only an active account gets a token.

* The texts `strip().lower()`, `lower(...)` of the database and the hashes are parameters.
* A `ResetCall` carries what the call reads from outside: its clocks, the random token, what
  becomes of each command it sends to Redis, and whether its transaction commits.
* `DifferAt` relates two user tables that differ in one account, registered and active in the
  first and unknown or deactivated in the second.

`resetResponses_eq_iff` says when the responses are the same for both tables: exactly when no call
for the address comes to the database cooldown while only a token of the history itself blocks it.
`resetResponses_reveal` is a history of two calls that tells the tables apart.
-/

namespace IChat.Auth

open StepSystem

/-- The settings of the flow. -/
structure ResetSettings where
  ipLimit : ℕ
  ipWindowSeconds : ℕ
  cooldownSeconds : ℕ
  tokenTtlSeconds : ℕ

def ResetSettings.default : ResetSettings := ⟨5, 3600, 60, 1800⟩

/-- The functions on texts that the flow calls. -/
structure Texts where
  /-- `email.strip().lower()`. -/
  normalize : String → String
  /-- `lower(...)` in the database. -/
  lower : String → String
  /-- `_email_digest`. -/
  emailDigest : String → String
  /-- `hash_auth_token`. -/
  hashAuthToken : String → String

/-- A call, with everything it reads from outside of the tables. -/
structure ResetCall where
  email : String
  clientIp : String
  /-- `time.time()` in `check_ip_rate_limit`, in milliseconds. -/
  nowMs : ℕ
  /-- The clock of Redis at `EVAL`. -/
  evalAt : ℕ
  evalResult : CommandResult
  /-- The clock of Redis at `SET`. -/
  setAt : ℕ
  setResult : CommandResult
  /-- `datetime.now` in `_enforce_db_email_cooldown`. -/
  checkedAt : ℕ
  /-- `datetime.now` in `create_password_reset_email`. -/
  moment : ℕ
  /-- `now()` in the database, the default of `created_at`. -/
  transactionAt : ℕ
  rawToken : String
  /-- Whether everything from the lookup of the user to the commit succeeds. -/
  commits : Bool
  deleteResult : CommandResult

/-- What the client sees. -/
inductive ResetResponse
  | success
  | tooManyRequests (retryAfterSeconds : ℕ) (detail : String)
  | internalError
  deriving DecidableEq, Repr

def cooldownMessage : String := "Please wait before requesting another email"

def rateLimitedMessage : String := "Too many requests, please try again later"

/-- The keys of Redis and the table `auth_tokens`. -/
structure ResetState where
  redis : Redis
  tokens : List AuthToken

/-- `issue_auth_token`: the active tokens of the purpose are revoked before the new one. -/
def issueAuthToken (tokenHash : String) (user : User) (purpose : Purpose)
    (ttlSeconds moment createdAt : ℕ) (tokens : List AuthToken) : List AuthToken :=
  (tokens.map fun token =>
    if token.userId = user.id ∧ token.purpose = purpose ∧ token.Active then
      { token with revokedAt := some moment }
    else token) ++
  [{  userId := user.id, purpose, tokenHash, sentToEmail := user.email
      expiresAt := moment + ttlSeconds * 1000, usedAt := none, revokedAt := none, createdAt }]

/-- `latest_token_created_at`. -/
def latestTokenCreatedAt (email : String) (purpose : Purpose) (tokens : List AuthToken) :
    Option ℕ :=
  ((tokens.filter fun token => token.sentToEmail = email ∧ token.purpose = purpose).map
    (·.createdAt)).max?

section flow

variable (texts : Texts) (settings : ResetSettings)

/-- `find_active_user_by_email`. -/
def findActiveUserByEmail (email : String) (users : List User) : Option User :=
  match users.find? fun user => texts.lower user.email = texts.normalize email with
  | none => none
  | some user => if user.isActive then some user else none

/-- `password_reset_request_ip_guard`: the refusal of a call over its limit. -/
def passwordResetRequestIpGuard (call : ResetCall) (redis : Redis) :
    Redis × Option ResetResponse :=
  let (redis', result) := call.evalResult.execute
    (checkIpRateLimit call.evalAt call.nowMs settings.ipLimit settings.ipWindowSeconds
      (ipRateKey "request_password_reset" call.clientIp)) redis
  match result with
  | some result =>
    if result.allowed then (redis', none)
    else (redis', some (.tooManyRequests result.retryAfterSeconds rateLimitedMessage))
  -- the guard fails open
  | none => (redis', none)

/-- `_enforce_db_email_cooldown` finds a token younger than the cooldown; a sum on the right
stands for the difference on the left of the source's comparison. -/
def DbCooldown (call : ResetCall) (tokens : List AuthToken) : Prop :=
  ∃ created ∈ latestTokenCreatedAt (texts.normalize call.email) .passwordReset tokens,
    call.checkedAt < created + settings.cooldownSeconds * 1000

instance (call : ResetCall) (tokens : List AuthToken) :
    Decidable (DbCooldown texts settings call tokens) :=
  inferInstanceAs (Decidable (∃ created ∈ latestTokenCreatedAt _ _ _, _))

/-- `acquire_password_reset_cooldown`: the refusal, or the key that has been acquired. -/
def acquirePasswordResetCooldown (call : ResetCall) (s : ResetState) :
    Redis × Except ResetResponse (Option String) :=
  let key := cooldownEmailKey texts.emailDigest .passwordReset (texts.normalize call.email)
  let refusal := ResetResponse.tooManyRequests settings.cooldownSeconds cooldownMessage
  let (redis', acquired) :=
    call.setResult.execute (tryCooldown call.setAt settings.cooldownSeconds key) s.redis
  match acquired with
  | some true => (redis', .ok (some key))
  | some false => (redis', .error refusal)
  | none =>
    if DbCooldown texts settings call s.tokens then (redis', .error refusal)
    else (redis', .ok none)

/-- The transaction of `request_password_reset`: a rollback releases the key acquired in it. -/
def resetTransaction (users : List User) (s : ResetState) (call : ResetCall) :
    ResetState × ResetResponse :=
  match acquirePasswordResetCooldown texts settings call s with
  | (redis, .error refusal) => ({ s with redis }, refusal)
  | (redis, .ok key) =>
    if call.commits then
      match findActiveUserByEmail texts call.email users with
      | none => ({ s with redis }, .success)
      | some user =>
        ({  redis
            tokens := issueAuthToken (texts.hashAuthToken call.rawToken) user .passwordReset
              settings.tokenTtlSeconds call.moment call.transactionAt s.tokens }, .success)
    else
      match key with
      | none => ({ s with redis }, .internalError)
      | some key =>
        ({ s with redis := (call.deleteResult.execute (releaseCooldown key) redis).1 },
          .internalError)

/-- `request_password_reset`. -/
def requestPasswordReset (users : List User) (s : ResetState) (call : ResetCall) :
    ResetState × ResetResponse :=
  match passwordResetRequestIpGuard settings call s.redis with
  | (redis, some refusal) => ({ s with redis }, refusal)
  | (redis, none) => resetTransaction texts settings users { s with redis } call

/-- The responses that a client observes. -/
def resetResponses (users : List User) (s : ResetState) (calls : List ResetCall) :
    List ResetResponse :=
  outputs (requestPasswordReset texts settings users) s calls

end flow

/-! ### Which tokens a cooldown sees -/

/-- When the password-reset tokens sent to an address were created. -/
def sentTo (address : String) (tokens : List AuthToken) : List ℕ :=
  (tokens.filter fun token => token.sentToEmail = address ∧ token.purpose = .passwordReset).map
    (·.createdAt)

theorem sentTo_issueAuthToken (address tokenHash : String) (user : User)
    (ttlSeconds moment createdAt : ℕ) (tokens : List AuthToken) :
    sentTo address
        (issueAuthToken tokenHash user .passwordReset ttlSeconds moment createdAt tokens) =
      sentTo address tokens ++ if user.email = address then [createdAt] else [] := by
  have hkept : ∀ tokens : List AuthToken,
      sentTo address (tokens.map fun token =>
        if token.userId = user.id ∧ token.purpose = .passwordReset ∧ token.Active then
          { token with revokedAt := some moment }
        else token) = sentTo address tokens := by
    intro tokens
    induction tokens with
    | nil => rfl
    | cons token tokens ih =>
      simp only [sentTo] at ih ⊢
      rw [List.map_cons, List.filter_cons, List.filter_cons]
      split <;> split <;> simp_all
  have hnew : ∀ left right : List AuthToken,
      sentTo address (left ++ right) = sentTo address left ++ sentTo address right := by
    intro left right
    simp [sentTo]
  rw [issueAuthToken, hnew, hkept]
  congr 1
  by_cases haddress : user.email = address <;> simp [sentTo, haddress]

theorem dbCooldown_iff {texts : Texts} {settings : ResetSettings} {call : ResetCall}
    {tokens : List AuthToken} :
    DbCooldown texts settings call tokens ↔
      ∃ created ∈ sentTo (texts.normalize call.email) tokens,
        call.checkedAt < created + settings.cooldownSeconds * 1000 := by
  have hlatest : latestTokenCreatedAt (texts.normalize call.email) .passwordReset tokens =
      (sentTo (texts.normalize call.email) tokens).max? := rfl
  rw [DbCooldown, hlatest]
  constructor
  · rintro ⟨created, hmax, hrecent⟩
    exact ⟨created, List.max?_mem hmax, hrecent⟩
  · rintro ⟨created, hmem, hrecent⟩
    cases hmax : (sentTo (texts.normalize call.email) tokens).max? with
    | none =>
      rw [List.max?_eq_none_iff.mp hmax] at hmem
      exact absurd hmem List.not_mem_nil
    | some latest =>
      have hle : created ≤ latest := (List.max?_eq_some_iff.mp hmax).2 created hmem
      exact ⟨latest, rfl, by omega⟩

/-! ### Two tables that differ in one account -/

section twoTables

variable {texts : Texts} {settings : ResetSettings} {user : User} {users users' : List User}

/-- The tables agree but for `user`, registered and active in the first, and either not in the
second or deactivated there. The emails are distinct, as `ux_users_email_lower` has it. -/
inductive DifferAt (texts : Texts) (user : User) : List User → List User → Prop
  | unknown (before after : List User) (active : user.isActive = true)
      (distinct : ((before ++ user :: after).map fun other => texts.lower other.email).Nodup) :
      DifferAt texts user (before ++ user :: after) (before ++ after)
  | deactivated (before after : List User) (active : user.isActive = true)
      (distinct : ((before ++ user :: after).map fun other => texts.lower other.email).Nodup) :
      DifferAt texts user (before ++ user :: after)
        (before ++ { user with isActive := false } :: after)

/-- A call finds the account in the first table alone. -/
theorem DifferAt.find_self (hdiffer : DifferAt texts user users users') {email : String}
    (hemail : texts.lower user.email = texts.normalize email) :
    findActiveUserByEmail texts email users = some user ∧
      findActiveUserByEmail texts email users' = none := by
  have hothers : ∀ {before after : List User},
      ((before ++ user :: after).map fun other => texts.lower other.email).Nodup →
      (∀ other ∈ before, texts.lower other.email ≠ texts.normalize email) ∧
        ∀ other ∈ after, texts.lower other.email ≠ texts.normalize email := by
    intro before after hdistinct
    rw [List.map_append, List.map_cons, List.nodup_middle, List.nodup_cons, List.mem_append,
      not_or] at hdistinct
    obtain ⟨⟨hbefore, hafter⟩, -⟩ := hdistinct
    rw [← hemail]
    exact ⟨fun other hother heq => hbefore (List.mem_map.mpr ⟨other, hother, heq⟩),
      fun other hother heq => hafter (List.mem_map.mpr ⟨other, hother, heq⟩)⟩
  have hnone : ∀ {others : List User},
      (∀ other ∈ others, texts.lower other.email ≠ texts.normalize email) →
      (others.find? fun other => texts.lower other.email = texts.normalize email) = none := by
    intro others hne
    exact List.find?_eq_none.mpr fun other hother => by simpa using hne other hother
  cases hdiffer with
  | unknown before after hactive hdistinct =>
    obtain ⟨hbefore, hafter⟩ := hothers hdistinct
    constructor
    · simp [findActiveUserByEmail, List.find?_append, hnone hbefore, hemail, hactive]
    · simp [findActiveUserByEmail, List.find?_append, hnone hbefore, hnone hafter]
  | deactivated before after hactive hdistinct =>
    obtain ⟨hbefore, hafter⟩ := hothers hdistinct
    constructor
    · simp [findActiveUserByEmail, List.find?_append, hnone hbefore, hemail, hactive]
    · simp [findActiveUserByEmail, List.find?_append, hnone hbefore, hemail]

/-- A call for another address finds the same account in both tables, and one with another
email. -/
theorem DifferAt.find_other (hdiffer : DifferAt texts user users users') {email : String}
    (hemail : texts.lower user.email ≠ texts.normalize email) :
    findActiveUserByEmail texts email users = findActiveUserByEmail texts email users' ∧
      ∀ found ∈ findActiveUserByEmail texts email users', found.email ≠ user.email := by
  have hfound : ∀ others : List User,
      ∀ found ∈ findActiveUserByEmail texts email others, found.email ≠ user.email := by
    intro others found hfound heq
    simp only [findActiveUserByEmail, Option.mem_def] at hfound
    cases hfind : others.find? fun user => texts.lower user.email = texts.normalize email with
    | none => simp [hfind] at hfound
    | some other =>
      have hlower : texts.lower other.email = texts.normalize email := by
        simpa using List.find?_some hfind
      rw [hfind] at hfound
      have hother : other = found := (Option.ite_none_right_eq_some.mp hfound).2 |> Option.some.inj
      rw [hother, heq] at hlower
      exact hemail hlower
  refine ⟨?_, hfound users'⟩
  cases hdiffer with
  | unknown | deactivated => simp [findActiveUserByEmail, List.find?_append, hemail]

/-- A call finds the account in the first table alone, or the same account in both, which has
another email. -/
theorem DifferAt.find_cases (hdiffer : DifferAt texts user users users') (email : String) :
    (findActiveUserByEmail texts email users = some user ∧
        findActiveUserByEmail texts email users' = none) ∨
      (findActiveUserByEmail texts email users = findActiveUserByEmail texts email users' ∧
        ∀ found ∈ findActiveUserByEmail texts email users', found.email ≠ user.email) := by
  by_cases hself : texts.lower user.email = texts.normalize email
  · exact .inl (hdiffer.find_self hself)
  · exact .inr (hdiffer.find_other hself)

/-- The two histories have told the client nothing apart: the keys of Redis are the same, every
address but the account's has been sent the same tokens, and the account's has been sent no fewer
than at the start, where the account is active, and no others, where it is not. -/
structure Alike (user : User) (start : List AuthToken) (left right : ResetState) : Prop where
  redis : left.redis = right.redis
  others : ∀ address, address ≠ user.email → sentTo address left.tokens =
    sentTo address right.tokens
  known : sentTo user.email start ⊆ sentTo user.email left.tokens
  unknown : sentTo user.email right.tokens = sentTo user.email start

/-- The call comes to the database cooldown: it passes the guard of its IP, and the command that
claims the cooldown fails. -/
def Degraded (settings : ResetSettings) (call : ResetCall) (redis : Redis) : Prop :=
  (passwordResetRequestIpGuard settings call redis).2 = none ∧ call.setResult ≠ .answered

instance (call : ResetCall) (redis : Redis) : Decidable (Degraded settings call redis) :=
  inferInstanceAs (Decidable (_ ∧ _))

/-- A degraded call for the account's address, blocked by a token that the address had not been
sent at the start. -/
def Exposed (texts : Texts) (settings : ResetSettings) (user : User) (start : List AuthToken)
    (s : ResetState) (call : ResetCall) : Prop :=
  texts.normalize call.email = user.email ∧ Degraded settings call s.redis ∧
    DbCooldown texts settings call s.tokens ∧ ¬DbCooldown texts settings call start

instance (start : List AuthToken) (s : ResetState) (call : ResetCall) :
    Decidable (Exposed texts settings user start s call) :=
  inferInstanceAs (Decidable (_ ∧ _ ∧ _ ∧ _))

section step

variable {start : List AuthToken} {left right : ResetState} {call : ResetCall}

/-- Where the call is not exposed, the database cooldown sees the same in both histories. -/
theorem Alike.dbCooldown_iff (halike : Alike user start left right)
    (hdegraded : Degraded settings call left.redis) :
    (DbCooldown texts settings call left.tokens ↔ DbCooldown texts settings call right.tokens) ↔
      ¬Exposed texts settings user start left call := by
  by_cases haddress : texts.normalize call.email = user.email
  · have hright : DbCooldown texts settings call right.tokens ↔
        DbCooldown texts settings call start := by
      rw [Auth.dbCooldown_iff, Auth.dbCooldown_iff, haddress, halike.unknown]
    have hleft : DbCooldown texts settings call start →
        DbCooldown texts settings call left.tokens := by
      rw [Auth.dbCooldown_iff, Auth.dbCooldown_iff, haddress]
      rintro ⟨created, hmem, hrecent⟩
      exact ⟨created, halike.known hmem, hrecent⟩
    rw [hright]
    constructor
    · rintro heq ⟨-, -, hblocked, hfree⟩
      exact hfree (heq.mp hblocked)
    · intro hexposed
      refine ⟨fun hblocked => ?_, hleft⟩
      by_contra hfree
      exact hexposed ⟨haddress, hdegraded, hblocked, hfree⟩
  · refine iff_of_true ?_ fun hexposed => haddress hexposed.1
    rw [Auth.dbCooldown_iff, Auth.dbCooldown_iff, halike.others _ haddress]

/-- The part of the call before the lookup of the account depends on the tokens through the
database cooldown alone. -/
theorem acquire_eq (hredis : left.redis = right.redis)
    (hagree : call.setResult ≠ .answered →
      (DbCooldown texts settings call left.tokens ↔ DbCooldown texts settings call right.tokens)) :
    acquirePasswordResetCooldown texts settings call left =
      acquirePasswordResetCooldown texts settings call right := by
  simp only [acquirePasswordResetCooldown, hredis]
  cases hset : call.setResult with
  | answered =>
    simp only [CommandResult.execute]
    generalize (tryCooldown _ _ _ _).2 = acquired
    cases acquired <;> rfl
  | lost | unanswered => simp only [CommandResult.execute, hagree (by simp [hset])]

/-- With a failing command the cooldown refuses exactly the calls that the database blocks. -/
theorem acquire_degraded (hset : call.setResult ≠ .answered) :
    (acquirePasswordResetCooldown texts settings call left).2 =
      if DbCooldown texts settings call left.tokens then
        .error (.tooManyRequests settings.cooldownSeconds cooldownMessage)
      else .ok none := by
  simp only [acquirePasswordResetCooldown]
  cases hresult : call.setResult with
  | answered => exact absurd hresult hset
  | lost | unanswered =>
    simp only [CommandResult.execute]
    split <;> rfl

/-- A token of the account is news for its own address only. -/
theorem Alike.issue_self (halike : Alike user start left right) (redis : Redis)
    (tokenHash : String) (ttlSeconds moment createdAt : ℕ) :
    Alike user start
      ⟨redis, issueAuthToken tokenHash user .passwordReset ttlSeconds moment createdAt left.tokens⟩
      ⟨redis, right.tokens⟩ where
  redis := rfl
  others address haddress := by
    rw [sentTo_issueAuthToken, if_neg haddress.symm, List.append_nil,
      halike.others address haddress]
  known created hcreated := by
    rw [sentTo_issueAuthToken]
    exact List.mem_append_left _ (halike.known hcreated)
  unknown := halike.unknown

/-- A token of another account is issued in both histories. -/
theorem Alike.issue_other (halike : Alike user start left right) {found : User}
    (hne : found.email ≠ user.email) (redis : Redis) (tokenHash : String)
    (ttlSeconds moment createdAt : ℕ) :
    Alike user start
      ⟨redis, issueAuthToken tokenHash found .passwordReset ttlSeconds moment createdAt left.tokens⟩
      ⟨redis,
        issueAuthToken tokenHash found .passwordReset ttlSeconds moment createdAt right.tokens⟩
    where
  redis := rfl
  others address haddress := by
    rw [sentTo_issueAuthToken, sentTo_issueAuthToken, halike.others address haddress]
  known := by
    rw [sentTo_issueAuthToken, if_neg hne, List.append_nil]
    exact halike.known
  unknown := by
    rw [sentTo_issueAuthToken, if_neg hne, List.append_nil]
    exact halike.unknown

/-- Two transactions that come to the same cooldown answer alike and stay alike. -/
theorem Alike.transaction (hdiffer : DifferAt texts user users users')
    (halike : Alike user start left right)
    (hacquire : acquirePasswordResetCooldown texts settings call left =
      acquirePasswordResetCooldown texts settings call right) :
    (resetTransaction texts settings users left call).2 =
        (resetTransaction texts settings users' right call).2 ∧
      Alike user start (resetTransaction texts settings users left call).1
        (resetTransaction texts settings users' right call).1 := by
  have hredis : ∀ redis : Redis,
      Alike user start { left with redis } { right with redis } :=
    fun redis => ⟨rfl, halike.others, halike.known, halike.unknown⟩
  simp only [resetTransaction, hacquire]
  rcases acquirePasswordResetCooldown texts settings call right with ⟨redis, refusal | key⟩
  · exact ⟨rfl, hredis redis⟩
  by_cases hcommits : call.commits
  · simp only [hcommits, if_true]
    obtain ⟨hleft, hright⟩ | ⟨hsame, hother⟩ := hdiffer.find_cases call.email
    · rw [hleft, hright]
      exact ⟨rfl, halike.issue_self redis _ _ _ _⟩
    · rw [hsame]
      cases hfound : findActiveUserByEmail texts call.email users' with
      | none => exact ⟨rfl, hredis redis⟩
      | some found => exact ⟨rfl, halike.issue_other (hother found hfound) redis _ _ _ _⟩
  · simp only [hcommits]
    cases key with
    | none => exact ⟨rfl, hredis redis⟩
    | some => exact ⟨rfl, hredis _⟩

/-- Where only the first history's cooldown blocks the call, the client sees it. -/
theorem transaction_ne (hset : call.setResult ≠ .answered)
    (hleft : DbCooldown texts settings call left.tokens)
    (hright : ¬DbCooldown texts settings call right.tokens) :
    (resetTransaction texts settings users left call).2 ≠
      (resetTransaction texts settings users' right call).2 := by
  have hrefused : (acquirePasswordResetCooldown texts settings call left).2 =
      .error (.tooManyRequests settings.cooldownSeconds cooldownMessage) := by
    rw [acquire_degraded hset, if_pos hleft]
  have hfree : (acquirePasswordResetCooldown texts settings call right).2 = .ok none := by
    rw [acquire_degraded hset, if_neg hright]
  simp only [resetTransaction]
  rcases hl : acquirePasswordResetCooldown texts settings call left with ⟨redis, acquired⟩
  rcases hr : acquirePasswordResetCooldown texts settings call right with ⟨redis', acquired'⟩
  rw [hl] at hrefused
  rw [hr] at hfree
  obtain rfl : acquired = _ := hrefused
  obtain rfl : acquired' = _ := hfree
  by_cases hcommits : call.commits
  · simp only [hcommits, if_true]
    cases findActiveUserByEmail texts call.email users' <;> nofun
  · simp only [hcommits]
    nofun

/-- A call keeps the histories alike unless it is exposed, and its answers agree exactly then. -/
theorem Alike.request (hdiffer : DifferAt texts user users users')
    (halike : Alike user start left right) :
    ((requestPasswordReset texts settings users left call).2 =
        (requestPasswordReset texts settings users' right call).2 ↔
      ¬Exposed texts settings user start left call) ∧
    (¬Exposed texts settings user start left call →
      Alike user start (requestPasswordReset texts settings users left call).1
        (requestPasswordReset texts settings users' right call).1) := by
  have hguards : passwordResetRequestIpGuard settings call left.redis =
      passwordResetRequestIpGuard settings call right.redis := by
    rw [halike.redis]
  rcases hguard : passwordResetRequestIpGuard settings call right.redis with ⟨redis, refusal⟩
  simp only [requestPasswordReset, hguards, hguard]
  cases refusal with
  | some =>
    have hnot : ¬Exposed texts settings user start left call := by
      rintro ⟨-, ⟨hpasses, -⟩, -⟩
      rw [hguards, hguard] at hpasses
      cases hpasses
    exact ⟨iff_of_true rfl hnot, fun _ => ⟨rfl, halike.others, halike.known, halike.unknown⟩⟩
  | none =>
    have halike' : Alike user start { left with redis } { right with redis } :=
      ⟨rfl, halike.others, halike.known, halike.unknown⟩
    have hpasses : (passwordResetRequestIpGuard settings call left.redis).2 = none := by
      rw [hguards, hguard]
    by_cases hexposed : Exposed texts settings user start left call
    · have hdegraded := hexposed.2.1
      have hdiffers := mt (halike.dbCooldown_iff hdegraded).mp (not_not_intro hexposed)
      have hright : ¬DbCooldown texts settings call right.tokens := fun hright =>
        hdiffers (iff_of_true hexposed.2.2.1 hright)
      refine ⟨iff_of_false ?_ (not_not_intro hexposed), fun hnot => absurd hexposed hnot⟩
      exact transaction_ne hdegraded.2 hexposed.2.2.1 hright
    · have hacquire : acquirePasswordResetCooldown texts settings call { left with redis } =
          acquirePasswordResetCooldown texts settings call { right with redis } :=
        acquire_eq rfl fun hset => (halike.dbCooldown_iff ⟨hpasses, hset⟩).mpr hexposed
      obtain ⟨hanswers, hnext⟩ := halike'.transaction hdiffer hacquire
      exact ⟨iff_of_true hanswers hexposed, fun _ => hnext⟩

end step

/-- **Anti-enumeration of password-reset requests.** For every history of calls, whatever Redis
does with their commands, the client sees the same responses whether or not the account exists and
is active, exactly when no call of the history with the account in the first table is exposed. -/
theorem resetResponses_eq_iff (texts : Texts) (settings : ResetSettings) {user : User}
    {users users' : List User} (hdiffer : DifferAt texts user users users') (s : ResetState)
    (calls : List ResetCall) :
    resetResponses texts settings users s calls = resetResponses texts settings users' s calls ↔
      Along (moves (requestPasswordReset texts settings users))
        (fun left call => ¬Exposed texts settings user s.tokens left call) s calls := by
  have hstart : Alike user s.tokens s s := ⟨rfl, fun _ _ => rfl, fun _ h => h, rfl⟩
  exact outputs_eq_iff (fun _ _ _ halike => (halike.request hdiffer).1)
    (fun _ _ _ halike => (halike.request hdiffer).2) hstart calls

end twoTables

/-- Texts that are already normalized, and are their own hashes. -/
def plainTexts : Texts := ⟨id, id, id, id⟩

def ada : User := ⟨1, "ada", "ada@example.org", "", true, true⟩

theorem differAt_ada : DifferAt plainTexts ada [ada] [] :=
  .unknown [] [] rfl (by decide)

/-- A call for `ada` at one moment, with what becomes of the command that claims the cooldown. -/
def adaCall (now : ℕ) (setResult : CommandResult) : ResetCall where
  email := "ada@example.org"
  clientIp := "192.0.2.1"
  nowMs := now
  evalAt := now
  evalResult := .answered
  setAt := now
  setResult := setResult
  checkedAt := now
  moment := now
  transactionAt := now
  rawToken := "token"
  commits := true
  deleteResult := .answered

/-- Nothing in Redis and no tokens. -/
def noRequests : ResetState := ⟨⟨fun _ => none, fun _ => none⟩, []⟩

/-- A second call a minute later gets the same answer for both tables, with Redis down. -/
theorem resetResponses_eq_iff_ada :
    DifferAt plainTexts ada [ada] [] ∧
      resetResponses plainTexts .default [ada] noRequests [adaCall 0 .lost, adaCall 60000 .lost] =
        resetResponses plainTexts .default [] noRequests [adaCall 0 .lost, adaCall 60000 .lost] :=
  ⟨differAt_ada,
    (resetResponses_eq_iff plainTexts .default differAt_ada noRequests _).mpr (by decide +kernel)⟩

/-- Redis fails at the second call, ten seconds after the first: the registered address is asked
to wait, the unknown one is not. -/
theorem resetResponses_reveal :
    ∃ (texts : Texts) (settings : ResetSettings) (user : User) (users users' : List User)
      (s : ResetState) (calls : List ResetCall), DifferAt texts user users users' ∧
      resetResponses texts settings users s calls ≠ resetResponses texts settings users' s calls :=
  ⟨plainTexts, .default, ada, [ada], [], noRequests, [adaCall 0 .answered, adaCall 10000 .lost],
    differAt_ada, by decide +kernel⟩

end IChat.Auth
