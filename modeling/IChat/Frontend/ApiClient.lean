import IChat.General.StepSystem
import Mathlib.Data.Int.Notation

/-!
# Sessions in the browser

The session that `tokenStore` keeps in `localStorage`, and the handlers of `ApiClient` and
`useAuthSession` that read and write it, in any number of tabs that share the storage. Each tab has
a client of its own, with its own `refreshPromise`.

A step is what runs between two awaits of one handler, or one transaction of the server. The
answer to a request, its status and the moment it arrives are parts of the action, so that the steps
come in any order.

Refresh tokens are random; the model names each one by its place in the order in which the server
issues them, which the code never looks at.
-/

namespace IChat.Frontend

/-- `AuthTokenResponse`. -/
structure AuthTokenResponse (User : Type) where
  user : User
  accessToken : String
  refreshToken : ℕ
  tokenType : String
  expiresIn : ℤ
  deriving DecidableEq

/-- `AuthSession`. -/
structure AuthSession (User : Type) where
  user : User
  accessToken : String
  refreshToken : ℕ
  tokenType : String
  expiresAt : ℤ
  deriving DecidableEq

/-- `createAuthSession`, with the time in milliseconds. -/
def createAuthSession {User : Type} (response : AuthTokenResponse User) (now : ℤ) :
    AuthSession User where
  user := response.user
  accessToken := response.accessToken
  refreshToken := response.refreshToken
  tokenType := response.tokenType
  expiresAt := now + response.expiresIn * 1000

/-- What is stored under `AUTH_STORAGE_KEY`: a session, or a text that does not parse. -/
inductive StoredItem (User : Type) where
  | session (session : AuthSession User)
  | malformed
  deriving DecidableEq

/-! ### `tokenStore` -/

namespace TokenStore

variable {User : Type}

/-- The session an item holds. -/
def session? : Option (StoredItem User) → Option (AuthSession User)
  | some (.session session) => some session
  | _ => none

/-- `readSession`, and what it leaves in the storage. -/
def readSession : Option (StoredItem User) → Option (AuthSession User) × Option (StoredItem User)
  | none => (none, none)
  | some (.session session) => (some session, some (.session session))
  | some .malformed => (none, none)

/-- `save`. -/
def save (session : AuthSession User) : Option (StoredItem User) := some (.session session)

/-- `clear`. -/
def clear : Option (StoredItem User) := none

/-- `updateUser`. -/
def updateUser (user : User) (item : Option (StoredItem User)) : Option (StoredItem User) :=
  match readSession item with
  | (some session, _) => some (.session { session with user })
  | (none, item) => item

/-- `getAccessToken`, and what it leaves in the storage. -/
def getAccessToken (item : Option (StoredItem User)) : Option String × Option (StoredItem User) :=
  ((readSession item).1.map (·.accessToken), (readSession item).2)

/-- `getRefreshToken`, and what it leaves in the storage. -/
def getRefreshToken (item : Option (StoredItem User)) : Option ℕ × Option (StoredItem User) :=
  ((readSession item).1.map (·.refreshToken), (readSession item).2)

variable {item : Option (StoredItem User)}

@[simp] theorem session?_save (session : AuthSession User) :
    session? (save session) = some session := rfl

@[simp] theorem session?_clear : session? (clear : Option (StoredItem User)) = none := rfl

@[simp] theorem readSession_fst : (readSession item).1 = session? item := by
  cases item with
  | none => rfl
  | some item => cases item <;> rfl

@[simp] theorem session?_readSession : session? (readSession item).2 = session? item := by
  cases item with
  | none => rfl
  | some item => cases item <;> rfl

@[simp] theorem getRefreshToken_fst :
    (getRefreshToken item).1 = (session? item).map (·.refreshToken) := by
  simp [getRefreshToken]

@[simp] theorem session?_getRefreshToken : session? (getRefreshToken item).2 = session? item := by
  simp [getRefreshToken]

@[simp] theorem session?_getAccessToken : session? (getAccessToken item).2 = session? item := by
  simp [getAccessToken]

@[simp] theorem session?_updateUser (user : User) :
    session? (updateUser user item) = (session? item).map fun session => { session with user } := by
  cases item with
  | none => rfl
  | some item => cases item <;> rfl

end TokenStore

/-! ### The parties -/

/-- The options of a request that decide what happens on a 401: `auth !== false` and
`retryOnUnauthorized !== false`. -/
structure ApiRequestOptions where
  auth : Bool
  retryOnUnauthorized : Bool
  deriving DecidableEq

/-- A row of `refresh_tokens` at the server: whether it is revoked, and the refresh that exchanged
it. -/
structure ServerToken where
  revoked : Bool
  exchangedBy : Option ℕ
  deriving DecidableEq

/-- A request to `/auth/refresh`: what it sent, what the server answered (`none` for a 401), and
what its promise settled with (`none` for an error). `startedAt` counts the logouts that had cleared
the storage by then. -/
structure RefreshRequest (Tab User : Type) where
  tab : Tab
  token : ℕ
  answer : Option (Option (AuthTokenResponse User))
  result : Option (Option (AuthTokenResponse User))
  startedAt : ℕ
  deriving DecidableEq

/-- A handler at one of its awaits. -/
inductive Handler (Tab User : Type) where
  /-- `fetchRawInternal`: the request is sent. -/
  | request (tab : Tab) (options : ApiRequestOptions) (hasRetried : Bool)
  /-- `refreshSession`: the handler awaits `refreshPromise`. -/
  | refreshing (tab : Tab) (options : ApiRequestOptions) (refresh : ℕ)
  /-- `login` or `register`: the request is sent, and the server may have answered. -/
  | login (answer : Option (Option (AuthTokenResponse User)))
  /-- `logout`: the request is sent. -/
  | logout (token : ℕ)
  deriving DecidableEq

/-- The storage of the browser, its clients and handlers, and the server. -/
structure Browser (Tab User : Type) where
  item : Option (StoredItem User)
  refreshPromise : Tab → Option ℕ
  refreshes : ℕ → Option (RefreshRequest Tab User)
  handlers : ℕ → Option (Handler Tab User)
  tokens : List ServerToken
  /-- How often a logout has cleared the storage. -/
  logouts : ℕ

/-- The steps. -/
inductive BrowserAction (Tab User : Type) where
  /-- A request is sent. -/
  | fetch (h : ℕ) (tab : Tab) (options : ApiRequestOptions)
  /-- The answer to a request arrives; a refresh that it starts is the `r`-th. -/
  | respond (h : ℕ) (unauthorized : Bool) (r : ℕ)
  /-- The server handles a refresh; `valid`: the token has not expired and its user is active. -/
  | serveRefresh (r : ℕ) (valid : Bool) (user : User) (accessToken tokenType : String)
      (expiresIn : ℤ)
  /-- The promise of a refresh settles, with the server's answer or with a failure on the way. -/
  | settleRefresh (r : ℕ) (lost : Bool)
  /-- A handler goes on after the refresh. -/
  | resume (h : ℕ) (now : ℤ)
  | login (h : ℕ)
  | serveLogin (h : ℕ) (granted : Bool) (user : User) (accessToken tokenType : String)
      (expiresIn : ℤ)
  | loginAnswered (h : ℕ) (lost : Bool) (now : ℤ)
  | logout (h : ℕ)
  | serveLogout (h : ℕ)
  | logoutAnswered (h : ℕ)
  /-- A handler has loaded the user. -/
  | updateUser (user : User)

namespace Browser

variable {Tab User : Type} [DecidableEq Tab]

/-- The session that is stored. -/
def stored (w : Browser Tab User) : Option (AuthSession User) := TokenStore.session? w.item

/-- The handler goes on. -/
def goto (w : Browser Tab User) (h : ℕ) (handler : Handler Tab User) : Browser Tab User :=
  { w with handlers := Function.update w.handlers h (some handler) }

/-- The handler has returned, or thrown. -/
def finish (w : Browser Tab User) (h : ℕ) : Browser Tab User :=
  { w with handlers := Function.update w.handlers h none }

/-- `expireAuth`. -/
def expireAuth (w : Browser Tab User) : Browser Tab User := { w with item := TokenStore.clear }

/-- A logout clears the storage. -/
def logoutClear (w : Browser Tab User) : Browser Tab User :=
  { w with item := TokenStore.clear, logouts := w.logouts + 1 }

/-- `buildHeaders`, for what it does to the storage. -/
def buildHeaders (options : ApiRequestOptions) (w : Browser Tab User) : Browser Tab User :=
  if options.auth then { w with item := (TokenStore.getAccessToken w.item).2 } else w

/-- `refreshSession`, to its await. -/
def refreshSession (h : ℕ) (tab : Tab) (options : ApiRequestOptions) (r : ℕ)
    (w : Browser Tab User) : Option (Browser Tab User) :=
  let read := { w with item := (TokenStore.getRefreshToken w.item).2 }
  match (TokenStore.getRefreshToken w.item).1 with
  | none => some (read.expireAuth.finish h)
  | some token =>
    -- `this.refreshPromise ??= …`
    match w.refreshPromise tab with
    | some r => some (read.goto h (.refreshing tab options r))
    | none =>
      if w.refreshes r = none then
        some ({ read with
          refreshPromise := Function.update w.refreshPromise tab (some r)
          refreshes := Function.update w.refreshes r
            (some ⟨tab, token, none, none, w.logouts⟩) }.goto h (.refreshing tab options r))
      else none

/-- The rest of `fetchRawInternal` once the answer is there. -/
def respond (h : ℕ) (unauthorized : Bool) (r : ℕ) (tab : Tab) (options : ApiRequestOptions)
    (hasRetried : Bool) (w : Browser Tab User) : Option (Browser Tab User) :=
  if unauthorized && options.auth && options.retryOnUnauthorized && !hasRetried then
    w.refreshSession h tab options r
  else some (w.finish h)

/-- The server issues a session. -/
def issueTokens (user : User) (accessToken tokenType : String) (expiresIn : ℤ)
    (tokens : List ServerToken) : AuthTokenResponse User × List ServerToken :=
  (⟨user, accessToken, tokens.length, tokenType, expiresIn⟩, tokens ++ [⟨false, none⟩])

/-- `refresh_tokens` of the server, for the `r`-th refresh. -/
def refreshTokens (r : ℕ) (valid : Bool) (user : User) (accessToken tokenType : String)
    (expiresIn : ℤ) (request : RefreshRequest Tab User) (w : Browser Tab User) :
    Browser Tab User :=
  let answered (answer : Option (AuthTokenResponse User)) (tokens : List ServerToken) :=
    { w with
      tokens
      refreshes := Function.update w.refreshes r (some { request with answer := some answer }) }
  match w.tokens[request.token]? with
  | none => answered none w.tokens
  | some row =>
    if row.revoked || !valid then answered none w.tokens
    else
      let (response, tokens) := issueTokens user accessToken tokenType expiresIn
        (w.tokens.set request.token { row with revoked := true, exchangedBy := some r })
      answered (some response) tokens

/-- `logout` of the server. -/
def revoke (token : ℕ) (w : Browser Tab User) : Browser Tab User :=
  match w.tokens[token]? with
  | none => w
  | some row => { w with tokens := w.tokens.set token { row with revoked := true } }

/-- The promise settles; `.finally` forgets it. -/
def settleRefresh (r : ℕ) (lost : Bool) (request : RefreshRequest Tab User)
    (w : Browser Tab User) : Option (Browser Tab User) :=
  let settled (result : Option (AuthTokenResponse User)) :=
    { w with
      refreshes := Function.update w.refreshes r (some { request with result := some result })
      refreshPromise := Function.update w.refreshPromise request.tab none }
  match request.result, request.answer with
  | some _, _ => none
  | none, some answer => some (settled (if lost then none else answer))
  | none, none => if lost then some (settled none) else none

/-- The rest of `refreshSession`, and the second request of `fetchRawInternal`. -/
def resume (h : ℕ) (now : ℤ) (tab : Tab) (options : ApiRequestOptions)
    (request : RefreshRequest Tab User) (w : Browser Tab User) : Option (Browser Tab User) :=
  match request.result with
  | none => none
  | some (some refreshed) =>
    let saved := { w with item := TokenStore.save (createAuthSession refreshed now) }
    some ((saved.buildHeaders options).goto h (.request tab options true))
  | some none => some (w.expireAuth.finish h)

/-- The rest of `login`, or of `register`. -/
def loginAnswered (h : ℕ) (lost : Bool) (now : ℤ)
    (answer : Option (Option (AuthTokenResponse User))) (w : Browser Tab User) :
    Option (Browser Tab User) :=
  match answer, lost with
  | some (some tokens), false =>
    some ({ w with item := TokenStore.save (createAuthSession tokens now) }.finish h)
  | some none, false => some (w.finish h)
  | _, true => some (w.finish h)
  | none, false => none

/-- A new handler begins. -/
def begin (w : Browser Tab User) (h : ℕ) (next : Option (Browser Tab User)) :
    Option (Browser Tab User) :=
  match w.handlers h with
  | none => next
  | some _ => none

/-- One step. -/
def step (w : Browser Tab User) : BrowserAction Tab User → Option (Browser Tab User)
  | .fetch h tab options =>
    w.begin h (some ((w.buildHeaders options).goto h (.request tab options false)))
  | .respond h unauthorized r =>
    match w.handlers h with
    | some (.request tab options hasRetried) => w.respond h unauthorized r tab options hasRetried
    | _ => none
  | .serveRefresh r valid user accessToken tokenType expiresIn =>
    match w.refreshes r with
    | some request =>
      if request.answer = none then
        some (w.refreshTokens r valid user accessToken tokenType expiresIn request)
      else none
    | none => none
  | .settleRefresh r lost => (w.refreshes r).bind fun request => w.settleRefresh r lost request
  | .resume h now =>
    match w.handlers h with
    | some (.refreshing tab options r) =>
      (w.refreshes r).bind fun request => w.resume h now tab options request
    | _ => none
  | .login h => w.begin h (some (w.goto h (.login none)))
  | .serveLogin h granted user accessToken tokenType expiresIn =>
    match w.handlers h with
    | some (.login none) =>
      if granted then
        let (response, tokens) := issueTokens user accessToken tokenType expiresIn w.tokens
        some ({ w with tokens }.goto h (.login (some (some response))))
      else some (w.goto h (.login (some none)))
    | _ => none
  | .loginAnswered h lost now =>
    match w.handlers h with
    | some (.login answer) => w.loginAnswered h lost now answer
    | _ => none
  | .logout h =>
    w.begin h (match TokenStore.getRefreshToken w.item with
      | (none, _) => some w.logoutClear
      | (some token, item) => some ({ w with item }.goto h (.logout token)))
  | .serveLogout h =>
    match w.handlers h with
    | some (.logout token) => some (w.revoke token)
    | _ => none
  | .logoutAnswered h =>
    match w.handlers h with
    | some (.logout _) => some (w.logoutClear.finish h)
    | _ => none
  | .updateUser user => some { w with item := TokenStore.updateUser user w.item }

/-- The browser is opened: nothing is under way, and a session that is stored from before was issued
by the server. -/
structure Opened (w : Browser Tab User) : Prop where
  idle : ∀ tab, w.refreshPromise tab = none
  refreshes : ∀ r, w.refreshes r = none
  handlers : ∀ h, w.handlers h = none
  issued : ∀ session ∈ w.stored, session.refreshToken < w.tokens.length
  exchanged : ∀ row ∈ w.tokens, row.exchangedBy = none
  logouts : w.logouts = 0

/-! ### What is promised -/

/-- The request has not been answered to the client. -/
def InFlight (w : Browser Tab User) (r : ℕ) (request : RefreshRequest Tab User) : Prop :=
  w.refreshes r = some request ∧ request.result = none

/-- A client has at most one refresh in flight. -/
def OneRefresh (w : Browser Tab User) : Prop :=
  ∀ r r' request request', w.InFlight r request → w.InFlight r' request' →
    request.tab = request'.tab → r = r'

/-- A handler waits for the refresh. -/
def Awaits (w : Browser Tab User) (h r : ℕ) (request : RefreshRequest Tab User) : Prop :=
  ∃ tab options, w.handlers h = some (.refreshing tab options r) ∧ w.refreshes r = some request

/-- What is promised of a step. -/
structure SafeStep (w : Browser Tab User) (action : BrowserAction Tab User)
    (w' : Browser Tab User) : Prop where
  /-- A refresh that a logout has outlived writes no session. -/
  afterLogout : ∀ h now r request, action = .resume h now → w.Awaits h r request →
    request.startedAt < w.logouts → w'.stored = none ∨ w'.stored = w.stored
  /-- A refresh that fails because another tab had exchanged the token leaves the sessions alone
  that were issued from then on. -/
  otherTab : ∀ h now r request row r' request' response, action = .resume h now →
    w.Awaits h r request → request.result = some none → w.tokens[request.token]? = some row →
      row.exchangedBy = some r' → w.refreshes r' = some request' → request'.tab ≠ request.tab →
      request'.answer = some (some response) → ∀ session ∈ w.stored,
        response.refreshToken ≤ session.refreshToken → w'.stored = some session
  /-- No session is overwritten by an older one. -/
  newer : ∀ session ∈ w.stored, ∀ session' ∈ w'.stored,
    session.refreshToken ≤ session'.refreshToken

end Browser

end IChat.Frontend
