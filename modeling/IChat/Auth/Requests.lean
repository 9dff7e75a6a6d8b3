import Mathlib.Logic.Function.Basic
import IChat.Auth.Records
import IChat.General.StepSystem
import IChat.General.UniqueIndex

/-!
# Requests about credentials

`issue_auth_token`, `revoke_active_tokens`, `consume_auth_token`, `verify_email`,
`reset_password`, `change_password`, `confirm_account_deletion`, `login_user`, `refresh_tokens` and
`logout`, each in a transaction of its own at read committed. A step is one statement with the lock
it takes, or one row of a bulk update; a statement that has to wait is not enabled. Everything that
raises rolls the transaction back, as `_email_transaction` and the end of a session do.

* `Hashing` holds what the requests call on texts; the random tokens and the salted hash of a new
  password are part of a request, and so is the user that the caller of `issue_auth_token` loaded.
* A statement of SQLAlchemy's unit of work is executed where it flushes: the change of a user's
  columns before the bulk updates that follow it in the source.
* `World.consumptions`, `exchanges`, `changes` and `issues` are histories. They record what the
  committed requests have done and what a refresh token comes from; no statement reads them.
-/

namespace IChat.Auth

open ReadCommitted StepSystem

/-- What the requests call on texts. -/
structure Hashing where
  /-- `hash_auth_token`. -/
  hashAuthToken : String → String
  /-- `hash_refresh_token`. -/
  hashRefreshToken : String → String
  /-- `verify_password`, of a password and a hash. -/
  verifyPassword : String → String → Bool
  /-- `identifier.strip().lower()`. -/
  normalize : String → String
  /-- `lower(...)` in the database. -/
  lower : String → String

inductive Request
  | issueAuthToken (user : User) (purpose : Purpose) (rawToken : String) (ttlSeconds : ℕ)
  | revokeActiveTokens (userId : ℕ) (purpose : Purpose)
  | consumeAuthToken (rawToken : String) (purpose : Purpose)
  | verifyEmail (rawToken : String)
  | resetPassword (rawToken newPasswordHash : String)
  | changePassword (userId : ℕ) (currentPassword newPasswordHash : String)
  | confirmAccountDeletion (rawToken : String)
  | loginUser (identifier password newToken : String) (ttlSeconds : ℕ)
  | refreshTokens (refreshToken newToken : String) (ttlSeconds : ℕ)
  | logout (refreshToken : String)
  deriving DecidableEq, Repr

/-- The columns of a user that a request sets. -/
structure UserChange where
  passwordHash : Option String
  emailVerified : Option Bool
  isActive : Option Bool
  deriving DecidableEq, Repr

def UserChange.apply (change : UserChange) (user : User) : User :=
  { user with
    passwordHash := change.passwordHash.getD user.passwordHash
    emailVerified := change.emailVerified.getD user.emailVerified
    isActive := change.isActive.getD user.isActive }

/-- A statement with its parameters. -/
inductive Statement
  | updateUser (userId : ℕ) (change : UserChange)
  /-- `revoke_all_refresh_tokens`. -/
  | revokeRefreshTokens (userId : ℕ)
  /-- `revoke_active_tokens`, or `revoke_all_active_tokens` without a purpose. -/
  | revokeAuthTokens (userId : ℕ) (purpose : Option Purpose)
  | insertAuthToken (token : AuthToken)
  /-- `UPDATE refresh_tokens SET revoked_at = ... WHERE id = ...`, which looks at nothing else. -/
  | revokeRefreshToken (id : ℕ)
  | insertRefreshToken (token : RefreshToken)
  deriving DecidableEq, Repr

inductive Outcome
  | succeeded
  | refused (statusCode : ℕ) (detail : String)
  /-- An exception of the database, or the loss of the connection. -/
  | aborted
  deriving DecidableEq, Repr

/-- How far a request has come. -/
inductive Phase
  | started
  /-- The `UPDATE` of `consume_auth_token` has found a row. -/
  | consuming (candidate : ℕ)
  | consumed (userId : ℕ) (sentToEmail : String)
  /-- `refresh_tokens` has read its token. -/
  | tokenRead (id : ℕ) (token : RefreshToken)
  | running (todo : List Statement)
  | revokingRefreshTokens (userId : ℕ) (remaining : List ℕ) (todo : List Statement)
  | revokingAuthTokens (userId : ℕ) (purpose : Option Purpose) (remaining : List ℕ)
      (todo : List Statement)
  | finished (outcome : Outcome)
  deriving DecidableEq, Repr

/-- A token that a committed request has consumed: its row, and what the request presented. -/
structure Consumption where
  request : ℕ
  token : ℕ
  purpose : Purpose
  tokenHash : String
  moment : ℕ
  deriving DecidableEq, Repr

/-- Where a refresh token comes from: the token it was exchanged for, if it was not a login, and
how often the password of the user had changed when its request read the user or that token, and
when the token was inserted. -/
structure Issue where
  parent : Option ℕ
  readAt : ℕ
  issuedAt : ℕ
  deriving DecidableEq, Repr

/-- A request, its `datetime.now`, and what it has done so far. -/
structure Session where
  request : Request
  now : ℕ
  phase : Phase
  /-- The user whose credentials the request is about, once it is known. -/
  user : Option ℕ
  consumption : Option Consumption
  /-- The refresh token that the request exchanges. -/
  exchange : Option ℕ
  /-- The number of changes of the user's password when the request read the user or the token. -/
  readAt : ℕ
  /-- The refresh tokens that its bulk update has found. -/
  snapshot : List ℕ
  deriving DecidableEq, Repr

def Session.start (request : Request) (now : ℕ) : Session :=
  { request, now, phase := .started, user := none, consumption := none, exchange := none
    readAt := 0, snapshot := [] }

structure World where
  users : Store User
  authTokens : Store AuthToken
  refreshTokens : Store RefreshToken
  requests : ℕ → Option Session
  consumptions : List Consumption
  /-- The refresh tokens that have been exchanged. -/
  exchanges : List ℕ
  /-- The users whose passwords have been changed or reset. -/
  changes : List ℕ
  issues : ℕ → Option Issue

def invalidLoginMessage : String := "Invalid username, email, or password"

def invalidRefreshTokenMessage : String := "Invalid refresh token"

def invalidAccessTokenMessage : String := "Invalid access token"

def invalidResetMessage : String := "Invalid or expired reset link"

def invalidDeletionMessage : String := "Invalid or expired confirmation link"

def invalidVerificationMessage : String := "Invalid or expired verification link"

def invalidCurrentPasswordMessage : String := "Current password is incorrect"

/-- `verify_email`, `reset_password` and `confirm_account_deletion` raise when nothing has been
consumed; `consume_auth_token` alone returns. -/
def Request.unconsumed : Request → Option Outcome
  | .verifyEmail _ => some (.refused 400 invalidVerificationMessage)
  | .resetPassword _ _ => some (.refused 400 invalidResetMessage)
  | .confirmAccountDeletion _ => some (.refused 400 invalidDeletionMessage)
  | _ => none

/-- The token that a request consumes, and the purpose it presents. -/
def Request.presents : Request → Option (String × Purpose)
  | .consumeAuthToken rawToken purpose => some (rawToken, purpose)
  | .verifyEmail rawToken => some (rawToken, .emailVerification)
  | .resetPassword rawToken _ => some (rawToken, .passwordReset)
  | .confirmAccountDeletion rawToken => some (rawToken, .accountDeletion)
  | _ => none

/-- The request gives its user another password. -/
def Request.changesPassword : Request → Bool
  | .resetPassword _ _ | .changePassword _ _ _ => true
  | _ => false

/-- The condition of the `UPDATE` of `consume_auth_token`. -/
def AuthToken.Presented (token : AuthToken) (tokenHash : String) (purpose : Purpose) (now : ℕ) :
    Prop :=
  token.tokenHash = tokenHash ∧ token.purpose = purpose ∧ token.Active ∧ now < token.expiresAt

instance (token : AuthToken) (tokenHash : String) (purpose : Purpose) (now : ℕ) :
    Decidable (token.Presented tokenHash purpose now) :=
  inferInstanceAs (Decidable (_ ∧ _ ∧ _ ∧ _))

/-- The purposes that a revocation is about. -/
def covers (revoked : Option Purpose) (purpose : Purpose) : Prop := ∀ p ∈ revoked, p = purpose

instance (revoked : Option Purpose) (purpose : Purpose) : Decidable (covers revoked purpose) :=
  inferInstanceAs (Decidable (∀ p ∈ revoked, p = purpose))

/-- The condition of `revoke_active_tokens` and `revoke_all_active_tokens`. -/
def AuthToken.revocable (userId : ℕ) (purpose : Option Purpose) (token : AuthToken) : Bool :=
  token.userId = userId ∧ covers purpose token.purpose ∧ token.Active

/-- The condition of `revoke_all_refresh_tokens`. -/
def RefreshToken.revocable (userId : ℕ) (token : RefreshToken) : Bool :=
  token.userId = userId ∧ token.revokedAt = none

/-- `uq_auth_tokens_active_purpose`. -/
def AuthToken.activeKey (token : AuthToken) : Option (ℕ × Purpose) :=
  if token.Active then some (token.userId, token.purpose) else none

/-- `_revoke_credentials_after_password_change`. -/
def revokeCredentialsAfterPasswordChange (userId : ℕ) : List Statement :=
  [.revokeRefreshTokens userId, .revokeAuthTokens userId (some .passwordReset),
    .revokeAuthTokens userId (some .accountDeletion)]

namespace World

/-- How often the password of the user has been changed. -/
def changesOf (w : World) (userId : ℕ) : ℕ := w.changes.count userId

def goto (w : World) (txn : ℕ) (session : Session) (phase : Phase) : World :=
  { w with requests := Function.update w.requests txn (some { session with phase }) }

/-- The end of a request that does not commit. -/
def rollback (w : World) (txn : ℕ) (session : Session) (outcome : Outcome) : World :=
  { w with
    users := ReadCommitted.rollback txn w.users
    authTokens := ReadCommitted.rollback txn w.authTokens
    refreshTokens := ReadCommitted.rollback txn w.refreshTokens }.goto txn session
      (.finished outcome)

def refuse (w : World) (txn : ℕ) (session : Session) (statusCode : ℕ) (detail : String) : World :=
  w.rollback txn session (.refused statusCode detail)

def commit (w : World) (txn : ℕ) (session : Session) : World :=
  { w with
    users := ReadCommitted.commit txn w.users
    authTokens := ReadCommitted.commit txn w.authTokens
    refreshTokens := ReadCommitted.commit txn w.refreshTokens
    consumptions := w.consumptions ++ session.consumption.toList
    exchanges := w.exchanges ++ session.exchange.toList
    changes :=
      if session.request.changesPassword then w.changes ++ session.user.toList
      else w.changes }.goto txn session (.finished .succeeded)

/-- Nothing has been consumed. -/
def unconsumed (w : World) (txn : ℕ) (session : Session) : World :=
  match session.request.unconsumed with
  | some outcome => w.rollback txn session outcome
  | none => w.goto txn session (.running [])

/-- `consume_auth_token`: the `UPDATE` looks for a row. -/
def findAuthToken (hashing : Hashing) (w : World) (txn : ℕ) (session : Session)
    (rawToken : String) (purpose : Purpose) : World :=
  let found := matching txn
    (fun token => token.Presented (hashing.hashAuthToken rawToken) purpose session.now) w.authTokens
  match found with
  | [] => w.unconsumed txn session
  | candidate :: _ => w.goto txn session (.consuming candidate)

/-- `consume_auth_token`: the row has been found, and the newest version is looked at again. -/
def consumeAuthToken (hashing : Hashing) (w : World) (txn : ℕ) (session : Session)
    (candidate : ℕ) : Option World :=
  match session.request.presents, w.authTokens.get? candidate with
  | some (rawToken, purpose), some row =>
    if row.Free txn then
      match row.visible txn with
      | none => some (w.unconsumed txn session)
      | some token =>
        let tokenHash := hashing.hashAuthToken rawToken
        if token.Presented tokenHash purpose session.now then
          some ({ w with
            authTokens :=
              w.authTokens.set (row.write txn { token with usedAt := some session.now }) }.goto txn
            { session with
              user := some token.userId
              consumption := some ⟨txn, candidate, purpose, tokenHash, session.now⟩ }
            (.consumed token.userId token.sentToEmail))
        else some (w.unconsumed txn session)
    else none
  | _, _ => none

/-- What `verify_email`, `reset_password` and `confirm_account_deletion` do with the user of the
token they have consumed. -/
def afterConsumption (w : World) (txn : ℕ) (session : Session) (userId : ℕ)
    (sentToEmail : String) : Option World :=
  match session.request with
  | .verifyEmail _ =>
    match read txn userId w.users with
    | none => some (w.refuse txn session 400 invalidVerificationMessage)
    | some user =>
      if user.emailVerified then some (w.goto txn session (.running []))
      else if sentToEmail ≠ user.email then
        some (w.refuse txn session 400 invalidVerificationMessage)
      else some (w.goto txn session (.running [.updateUser userId ⟨none, some true, none⟩]))
  | .resetPassword _ newPasswordHash =>
    match read txn userId w.users with
    | none => some (w.refuse txn session 400 invalidResetMessage)
    | some user =>
      if user.isActive then
        let change : UserChange :=
          ⟨some newPasswordHash, if sentToEmail = user.email then some true else none, none⟩
        some (w.goto txn session (.running
          (.updateUser userId change :: revokeCredentialsAfterPasswordChange userId)))
      else some (w.refuse txn session 400 invalidResetMessage)
  | .confirmAccountDeletion _ =>
    match read txn userId w.users with
    | none => some (w.refuse txn session 400 invalidDeletionMessage)
    | some _ =>
      -- `SELECT ... FOR UPDATE`
      match update txn userId (fun user => user) w.users with
      | none => none
      | some (_, users) =>
        some ({ w with users }.goto txn session (.running
          [.updateUser userId ⟨none, none, some false⟩, .revokeRefreshTokens userId,
            .revokeAuthTokens userId none]))
  | _ => some (w.goto txn session (.running []))

/-- The beginning of `change_password`, with the lookup of `get_current_user`. -/
def beginChangePassword (hashing : Hashing) (w : World) (txn : ℕ) (session : Session) (userId : ℕ)
    (currentPassword newPasswordHash : String) : World :=
  match read txn userId w.users with
  | none => w.refuse txn session 401 invalidAccessTokenMessage
  | some user =>
    if ¬user.isActive then w.refuse txn session 401 invalidAccessTokenMessage
    else if ¬hashing.verifyPassword currentPassword user.passwordHash then
      w.refuse txn session 400 invalidCurrentPasswordMessage
    else
      w.goto txn { session with user := some userId } (.running
        (.updateUser userId ⟨some newPasswordHash, none, none⟩ ::
          revokeCredentialsAfterPasswordChange userId))

/-- The first row under a condition, as the transaction sees it. -/
def findVisible {V : Type} (txn : ℕ) (p : V → Bool) (s : Store V) : Option (ℕ × V) :=
  s.rows.findSome? fun row => ((row.visible txn).filter p).map fun version => (row.id, version)

/-- `login_user`, up to `issue_tokens`. -/
def beginLogin (hashing : Hashing) (w : World) (txn : ℕ) (session : Session)
    (identifier password newToken : String) (ttlSeconds : ℕ) : World :=
  match findVisible txn (fun user => hashing.lower user.username = hashing.normalize identifier ∨
      hashing.lower user.email = hashing.normalize identifier) w.users with
  | none => w.refuse txn session 401 invalidLoginMessage
  | some (userId, user) =>
    if ¬user.isActive then w.refuse txn session 401 invalidLoginMessage
    else if ¬hashing.verifyPassword password user.passwordHash then
      w.refuse txn session 401 invalidLoginMessage
    else
      w.goto txn { session with user := some userId, readAt := w.changesOf userId }
        (.running [.insertRefreshToken
          { userId, tokenHash := hashing.hashRefreshToken newToken
            expiresAt := session.now + ttlSeconds * 1000, revokedAt := none }])

/-- `refresh_tokens`, up to the check of the token. -/
def beginRefresh (hashing : Hashing) (w : World) (txn : ℕ) (session : Session)
    (refreshToken : String) : World :=
  match findVisible txn (fun token : RefreshToken =>
      token.tokenHash = hashing.hashRefreshToken refreshToken) w.refreshTokens with
  | none => w.refuse txn session 401 invalidRefreshTokenMessage
  | some (id, token) =>
    if token.revokedAt ≠ none ∨ token.expiresAt ≤ session.now then
      w.refuse txn session 401 invalidRefreshTokenMessage
    else
      w.goto txn { session with user := some token.userId, readAt := w.changesOf token.userId }
        (.tokenRead id token)

/-- `refresh_tokens`, from the lookup of the user on. -/
def afterTokenRead (hashing : Hashing) (w : World) (txn : ℕ) (session : Session) (id : ℕ)
    (token : RefreshToken) : Option World :=
  match session.request with
  | .refreshTokens _ newToken ttlSeconds =>
    match read txn token.userId w.users with
    | none => some (w.refuse txn session 401 invalidRefreshTokenMessage)
    | some user =>
      if user.isActive then
        some (w.goto txn { session with exchange := some id }
          (.running [.revokeRefreshToken id, .insertRefreshToken
            { userId := token.userId, tokenHash := hashing.hashRefreshToken newToken
              expiresAt := session.now + ttlSeconds * 1000, revokedAt := none }]))
      else some (w.refuse txn session 401 invalidRefreshTokenMessage)
  | _ => none

/-- `logout`, up to its `UPDATE`. -/
def beginLogout (hashing : Hashing) (w : World) (txn : ℕ) (session : Session)
    (refreshToken : String) : World :=
  match findVisible txn (fun token : RefreshToken =>
      token.tokenHash = hashing.hashRefreshToken refreshToken) w.refreshTokens with
  | none => w.goto txn session (.running [])
  | some (id, token) =>
    w.goto txn session (.running (if token.revokedAt = none then [.revokeRefreshToken id] else []))

/-- The first step of a request. -/
def begin (hashing : Hashing) (w : World) (txn : ℕ) (session : Session) : World :=
  match session.request with
  | .issueAuthToken user purpose rawToken ttlSeconds =>
    w.goto txn { session with user := some user.id }
      (.running [.revokeAuthTokens user.id (some purpose), .insertAuthToken
        { userId := user.id, purpose, tokenHash := hashing.hashAuthToken rawToken
          sentToEmail := user.email, expiresAt := session.now + ttlSeconds * 1000, usedAt := none
          revokedAt := none, createdAt := session.now }])
  | .revokeActiveTokens userId purpose =>
    w.goto txn { session with user := some userId }
      (.running [.revokeAuthTokens userId (some purpose)])
  | .consumeAuthToken rawToken purpose => w.findAuthToken hashing txn session rawToken purpose
  | .verifyEmail rawToken => w.findAuthToken hashing txn session rawToken .emailVerification
  | .resetPassword rawToken _ => w.findAuthToken hashing txn session rawToken .passwordReset
  | .changePassword userId currentPassword newPasswordHash =>
    w.beginChangePassword hashing txn session userId currentPassword newPasswordHash
  | .confirmAccountDeletion rawToken =>
    w.findAuthToken hashing txn session rawToken .accountDeletion
  | .loginUser identifier password newToken ttlSeconds =>
    w.beginLogin hashing txn session identifier password newToken ttlSeconds
  | .refreshTokens refreshToken _ _ => w.beginRefresh hashing txn session refreshToken
  | .logout refreshToken => w.beginLogout hashing txn session refreshToken

def insertAuthToken (w : World) (txn : ℕ) (session : Session) (token : AuthToken)
    (todo : List Statement) : Option World :=
  match insertion (fun token => some token.tokenHash) txn token w.authTokens,
    insertion AuthToken.activeKey txn token w.authTokens with
  | .clear, .clear =>
    some ({ w with authTokens := ReadCommitted.insert txn token w.authTokens }.goto txn session
      (.running todo))
  | .conflict, _ | _, .conflict => some (w.rollback txn session .aborted)
  | _, _ => none

def insertRefreshToken (w : World) (txn : ℕ) (session : Session) (token : RefreshToken)
    (todo : List Statement) : Option World :=
  match insertion (fun token => some token.tokenHash) txn token w.refreshTokens with
  | .clear =>
    some ({ w with
      refreshTokens := ReadCommitted.insert txn token w.refreshTokens
      issues := Function.update w.issues w.refreshTokens.next
        (some ⟨session.exchange, session.readAt, w.changesOf token.userId⟩) }.goto txn session
      (.running todo))
  | .conflict => some (w.rollback txn session .aborted)
  | .wait => none

/-- The next statement of a request. -/
def execute (w : World) (txn : ℕ) (session : Session) (statement : Statement)
    (todo : List Statement) : Option World :=
  match statement with
  | .updateUser userId change =>
    match update txn userId change.apply w.users with
    | none => none
    | some (_, users) => some ({ w with users }.goto txn session (.running todo))
  | .revokeRefreshTokens userId =>
    let found := matching txn (RefreshToken.revocable userId) w.refreshTokens
    some (w.goto txn { session with snapshot := found } (.revokingRefreshTokens userId found todo))
  | .revokeAuthTokens userId purpose =>
    some (w.goto txn session (.revokingAuthTokens userId purpose
      (matching txn (AuthToken.revocable userId purpose) w.authTokens) todo))
  | .insertAuthToken token => w.insertAuthToken txn session token todo
  | .revokeRefreshToken id =>
    match update txn id (fun token => { token with revokedAt := some session.now })
      w.refreshTokens with
    | none => none
    | some (_, refreshTokens) =>
      some ({ w with refreshTokens }.goto txn session (.running todo))
  | .insertRefreshToken token => w.insertRefreshToken txn session token todo

/-- The next step of a request; a bulk update takes the row `next`, in any order. -/
def advance (hashing : Hashing) (w : World) (txn : ℕ) (session : Session) (next : ℕ) :
    Option World :=
  match session.phase with
  | .started => some (w.begin hashing txn session)
  | .consuming candidate => w.consumeAuthToken hashing txn session candidate
  | .consumed userId sentToEmail => w.afterConsumption txn session userId sentToEmail
  | .tokenRead id token => w.afterTokenRead hashing txn session id token
  | .running [] => some (w.commit txn session)
  | .running (statement :: todo) => w.execute txn session statement todo
  | .revokingRefreshTokens _ [] todo => some (w.goto txn session (.running todo))
  | .revokingRefreshTokens userId remaining todo =>
    if next ∈ remaining then
      (updateIf txn next (RefreshToken.revocable userId)
        (fun token => { token with revokedAt := some session.now }) w.refreshTokens).map
        fun refreshTokens => { w with refreshTokens }.goto txn session
          (.revokingRefreshTokens userId (remaining.erase next) todo)
    else none
  | .revokingAuthTokens _ _ [] todo => some (w.goto txn session (.running todo))
  | .revokingAuthTokens userId purpose remaining todo =>
    if next ∈ remaining then
      (updateIf txn next (AuthToken.revocable userId purpose)
        (fun token => { token with revokedAt := some session.now }) w.authTokens).map
        fun authTokens => { w with authTokens }.goto txn session
          (.revokingAuthTokens userId purpose (remaining.erase next) todo)
    else none
  | .finished _ => none

end World

/-- A request starts, takes its next step, or loses its connection. -/
inductive Action
  | start (txn : ℕ) (request : Request) (now : ℕ)
  | advance (txn next : ℕ)
  | abort (txn : ℕ)
  deriving DecidableEq, Repr

def Phase.isFinished : Phase → Bool
  | .finished _ => true
  | _ => false

def step (hashing : Hashing) (w : World) : Action → Option World
  | .start txn request now =>
    match w.requests txn with
    | some _ => none
    | none => some (w.goto txn (Session.start request now) .started)
  | .advance txn next =>
    match w.requests txn with
    | none => none
    | some session => w.advance hashing txn session next
  | .abort txn =>
    match w.requests txn with
    | none => none
    | some session =>
      if session.phase.isFinished then none else some (w.rollback txn session .aborted)

/-- Accounts, no tokens, and no request. -/
structure World.Starts (w : World) : Prop where
  users : ∀ row ∈ w.users, row.pending = none
  authTokens : w.authTokens = Table.empty
  refreshTokens : w.refreshTokens = Table.empty
  requests : ∀ txn, w.requests txn = none
  consumptions : w.consumptions = []
  exchanges : w.exchanges = []
  changes : w.changes = []
  issues : ∀ id, w.issues id = none

/-- Hashes that are their texts. -/
def plainHashing : Hashing where
  hashAuthToken := id
  hashRefreshToken := id
  verifyPassword password passwordHash := password = passwordHash
  normalize := id
  lower := id

def bea : User := ⟨0, "bea", "bea@mail", "secret", true, true⟩

/-- One account. -/
def beaAccount : World where
  users := ⟨[⟨0, some bea, none⟩], 1, by decide, by decide⟩
  authTokens := Table.empty
  refreshTokens := Table.empty
  requests := fun _ => none
  consumptions := []
  exchanges := []
  changes := []
  issues := fun _ => none

theorem starts_beaAccount : beaAccount.Starts where
  users := by decide
  authTokens := rfl
  refreshTokens := rfl
  requests _ := rfl
  consumptions := rfl
  exchanges := rfl
  changes := rfl
  issues _ := rfl

end IChat.Auth
