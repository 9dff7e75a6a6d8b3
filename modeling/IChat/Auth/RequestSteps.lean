import IChat.Auth.Requests

/-!
# The steps of the requests about credentials

`World.Change` lists what one step of a request can do, and `step_cases` says that nothing else
happens. Most steps only move the session on (`Session.Moves`). A session always carries what its
phase says (`Session.Ok`): what is left of the program of its request.
-/

namespace IChat.Auth

open ReadCommitted StepSystem

/-! ### What one step can do -/

/-- The statements of a request once it has read what it needs, for the user it is about and the
refresh token it exchanges. -/
inductive Request.Program : Request → Option ℕ → Option ℕ → List Statement → Prop
  | issueAuthToken {user : User} {purpose : Purpose} {rawToken : String} {ttlSeconds : ℕ}
      {token : AuthToken} (active : token.Active) :
      Program (.issueAuthToken user purpose rawToken ttlSeconds) (some user.id) none
        [.revokeAuthTokens user.id (some purpose), .insertAuthToken token]
  | revokeActiveTokens {userId : ℕ} {purpose : Purpose} :
      Program (.revokeActiveTokens userId purpose) (some userId) none
        [.revokeAuthTokens userId (some purpose)]
  | consumeAuthToken {rawToken : String} {purpose : Purpose} {user : Option ℕ} :
      Program (.consumeAuthToken rawToken purpose) user none []
  | emailVerified {rawToken : String} {user : Option ℕ} :
      Program (.verifyEmail rawToken) user none []
  | verifyEmail {rawToken : String} {user : Option ℕ} {userId : ℕ} {change : UserChange} :
      Program (.verifyEmail rawToken) user none [.updateUser userId change]
  | resetPassword {rawToken newPasswordHash : String} {userId : ℕ} {change : UserChange} :
      Program (.resetPassword rawToken newPasswordHash) (some userId) none
        (.updateUser userId change :: revokeCredentialsAfterPasswordChange userId)
  | changePassword {userId : ℕ} {currentPassword newPasswordHash : String} {change : UserChange} :
      Program (.changePassword userId currentPassword newPasswordHash) (some userId) none
        (.updateUser userId change :: revokeCredentialsAfterPasswordChange userId)
  | confirmAccountDeletion {rawToken : String} {userId : ℕ} {change : UserChange} :
      Program (.confirmAccountDeletion rawToken) (some userId) none
        [.updateUser userId change, .revokeRefreshTokens userId, .revokeAuthTokens userId none]
  | loginUser {identifier password newToken : String} {ttlSeconds userId : ℕ}
      {token : RefreshToken} (owner : token.userId = userId) (fresh : token.revokedAt = none) :
      Program (.loginUser identifier password newToken ttlSeconds) (some userId) none
        [.insertRefreshToken token]
  | refreshTokens {refreshToken newToken : String} {ttlSeconds id userId : ℕ}
      {token : RefreshToken} (owner : token.userId = userId) (fresh : token.revokedAt = none) :
      Program (.refreshTokens refreshToken newToken ttlSeconds) (some userId) (some id)
        [.revokeRefreshToken id, .insertRefreshToken token]
  | loggedOut {refreshToken : String} {user : Option ℕ} :
      Program (.logout refreshToken) user none []
  | logout {refreshToken : String} {user : Option ℕ} {id : ℕ} :
      Program (.logout refreshToken) user none [.revokeRefreshToken id]

/-- The statements are what is left of the program of the request. -/
def Session.Runs (session : Session) (todo : List Statement) : Prop :=
  ∃ program, session.request.Program session.user session.exchange program ∧ todo <:+ program

/-- What a session carries in each phase. -/
def Session.Ok (session : Session) : Prop :=
  match session.phase with
  | .started =>
    session.consumption = none ∧ session.exchange = none ∧ session.snapshot = [] ∧
      session.readAt = 0
  | .consuming _ =>
    session.consumption = none ∧ session.exchange = none ∧ session.snapshot = [] ∧
      session.readAt = 0 ∧ session.request.presents.isSome
  | .consumed userId _ =>
    session.user = some userId ∧ session.exchange = none ∧ session.snapshot = [] ∧
      session.readAt = 0 ∧ session.request.presents.isSome
  | .tokenRead _ token =>
    session.user = some token.userId ∧ session.consumption = none ∧ session.exchange = none ∧
      session.snapshot = []
  | .running todo => session.Runs todo
  | .revokingRefreshTokens userId _ todo => session.Runs (.revokeRefreshTokens userId :: todo)
  | .revokingAuthTokens userId purpose _ todo =>
    session.Runs (.revokeAuthTokens userId purpose :: todo)
  | .finished _ => True

/-- A session goes on without writing a token. -/
inductive Session.Moves (w : World) (txn : ℕ) (session : Session) : Session → Prop
  | seek {candidate : ℕ} (phase : session.phase = .started)
      (presents : session.request.presents.isSome) :
      Moves w txn session { session with phase := .consuming candidate }
  | begin {user : Option ℕ} {readAt : ℕ} {todo : List Statement}
      (phase : session.phase = .started ∨ ∃ candidate, session.phase = .consuming candidate)
      (program : session.request.Program user none todo)
      (read : readAt = session.readAt ∨ ∀ userId ∈ user, readAt = w.changesOf userId) :
      Moves w txn session { session with user, readAt, phase := .running todo }
  | readToken {id : ℕ} {row : Row RefreshToken} {token : RefreshToken}
      (phase : session.phase = .started) (found : w.refreshTokens.get? id = some row)
      (visible : row.visible txn = some token) (unrevoked : token.revokedAt = none) :
      Moves w txn session
        { session with
          user := some token.userId, readAt := w.changesOf token.userId
          phase := .tokenRead id token }
  | exchange {id : ℕ} {token : RefreshToken} {todo : List Statement}
      (phase : session.phase = .tokenRead id token)
      (program : session.request.Program (some token.userId) (some id) todo) :
      Moves w txn session { session with exchange := some id, phase := .running todo }
  | consumed {userId : ℕ} {sentToEmail : String} {todo : List Statement}
      (phase : session.phase = .consumed userId sentToEmail)
      (program : session.request.Program (some userId) none todo) :
      Moves w txn session { session with phase := .running todo }
  | updateUser {userId : ℕ} {change : UserChange} {todo : List Statement}
      (phase : session.phase = .running (.updateUser userId change :: todo)) :
      Moves w txn session { session with phase := .running todo }
  | findRefreshTokens {userId : ℕ} {todo : List Statement}
      (phase : session.phase = .running (.revokeRefreshTokens userId :: todo)) :
      Moves w txn session
        { session with
          snapshot := matching txn (RefreshToken.revocable userId) w.refreshTokens
          phase := .revokingRefreshTokens userId
            (matching txn (RefreshToken.revocable userId) w.refreshTokens) todo }
  | findAuthTokens {userId : ℕ} {purpose : Option Purpose} {todo : List Statement}
      (phase : session.phase = .running (.revokeAuthTokens userId purpose :: todo)) :
      Moves w txn session
        { session with
          phase := .revokingAuthTokens userId purpose
            (matching txn (AuthToken.revocable userId purpose) w.authTokens) todo }
  | passRefreshToken {userId next : ℕ} {remaining : List ℕ} {todo : List Statement}
      (phase : session.phase = .revokingRefreshTokens userId remaining todo)
      (passed : ∀ row, w.refreshTokens.get? next = some row → row.Free txn ∧
        ∀ token ∈ row.visible txn, token.revocable userId = false) :
      Moves w txn session
        { session with phase := .revokingRefreshTokens userId (remaining.erase next) todo }
  | passAuthToken {userId next : ℕ} {purpose : Option Purpose} {remaining : List ℕ}
      {todo : List Statement}
      (phase : session.phase = .revokingAuthTokens userId purpose remaining todo)
      (passed : ∀ row, w.authTokens.get? next = some row → row.Free txn ∧
        ∀ token ∈ row.visible txn, token.revocable userId purpose = false) :
      Moves w txn session
        { session with phase := .revokingAuthTokens userId purpose (remaining.erase next) todo }
  | refreshTokensRevoked {userId : ℕ} {todo : List Statement}
      (phase : session.phase = .revokingRefreshTokens userId [] todo) :
      Moves w txn session { session with phase := .running todo }
  | authTokensRevoked {userId : ℕ} {purpose : Option Purpose} {todo : List Statement}
      (phase : session.phase = .revokingAuthTokens userId purpose [] todo) :
      Moves w txn session { session with phase := .running todo }

namespace World

/-- The effects of one step of a request. -/
inductive Change (hashing : Hashing) (w : World) (txn : ℕ) (session : Session) : World → Prop
  | moves {session' : Session} {users : Store User} (moves : session.Moves w txn session') :
      Change hashing w txn session
        { w with users, requests := Function.update w.requests txn (some session') }
  | consume {id : ℕ} {row : Row AuthToken} {token : AuthToken} {rawToken : String}
      {purpose : Purpose} (phase : session.phase = .consuming id)
      (presents : session.request.presents = some (rawToken, purpose))
      (found : w.authTokens.get? id = some row) (free : row.Free txn)
      (visible : row.visible txn = some token)
      (presented : token.Presented (hashing.hashAuthToken rawToken) purpose session.now) :
      Change hashing w txn session
        ({ w with
          authTokens :=
            w.authTokens.set (row.write txn { token with usedAt := some session.now }) }.goto txn
          { session with
            user := some token.userId
            consumption :=
              some ⟨txn, id, purpose, hashing.hashAuthToken rawToken, session.now⟩ }
          (.consumed token.userId token.sentToEmail))
  | revokeAuthToken {userId next : ℕ} {purpose : Option Purpose} {remaining : List ℕ}
      {todo : List Statement} {row : Row AuthToken} {token : AuthToken}
      (phase : session.phase = .revokingAuthTokens userId purpose remaining todo)
      (found : w.authTokens.get? next = some row) (free : row.Free txn)
      (visible : row.visible txn = some token) (revocable : token.revocable userId purpose = true) :
      Change hashing w txn session
        ({ w with
          authTokens :=
            w.authTokens.set (row.write txn { token with revokedAt := some session.now }) }.goto txn
          session (.revokingAuthTokens userId purpose (remaining.erase next) todo))
  | insertAuthToken {token : AuthToken} {todo : List Statement}
      (phase : session.phase = .running (.insertAuthToken token :: todo))
      (clear : insertion AuthToken.activeKey txn token w.authTokens = .clear) :
      Change hashing w txn session
        ({ w with authTokens := ReadCommitted.insert txn token w.authTokens }.goto txn session
          (.running todo))
  | revokeRefreshTokens {userId next : ℕ} {remaining : List ℕ} {todo : List Statement}
      {row : Row RefreshToken} {token : RefreshToken}
      (phase : session.phase = .revokingRefreshTokens userId remaining todo)
      (found : w.refreshTokens.get? next = some row) (free : row.Free txn)
      (visible : row.visible txn = some token) (revocable : token.revocable userId = true) :
      Change hashing w txn session
        ({ w with
          refreshTokens :=
            w.refreshTokens.set (row.write txn { token with revokedAt := some session.now }) }.goto
          txn session (.revokingRefreshTokens userId (remaining.erase next) todo))
  | revokeRefreshToken {id : ℕ} {todo : List Statement} {row : Row RefreshToken}
      {token : RefreshToken} (phase : session.phase = .running (.revokeRefreshToken id :: todo))
      (found : w.refreshTokens.get? id = some row) (free : row.Free txn)
      (visible : row.visible txn = some token) :
      Change hashing w txn session
        ({ w with
          refreshTokens :=
            w.refreshTokens.set (row.write txn { token with revokedAt := some session.now }) }.goto
          txn session (.running todo))
  | insertRefreshToken {token : RefreshToken} {todo : List Statement}
      (phase : session.phase = .running (.insertRefreshToken token :: todo)) :
      Change hashing w txn session
        ({ w with
          refreshTokens := ReadCommitted.insert txn token w.refreshTokens
          issues := Function.update w.issues w.refreshTokens.next
            (some ⟨session.exchange, session.readAt, w.changesOf token.userId⟩) }.goto txn session
          (.running todo))
  | commit (phase : session.phase = .running []) :
      Change hashing w txn session (w.commit txn session)
  | rollback {outcome : Outcome} (unfinished : session.phase.isFinished = false)
      (failed : outcome ≠ .succeeded) :
      Change hashing w txn session (w.rollback txn session outcome)

variable {hashing : Hashing} {w : World} {txn next : ℕ} {session : Session} {w' : World}

theorem refuse_change {statusCode : ℕ} {detail : String} (h : session.phase.isFinished = false) :
    Change hashing w txn session (w.refuse txn session statusCode detail) :=
  .rollback h fun hsucceeded => by cases hsucceeded

/-- A consuming request that finds nothing to consume. -/
theorem unconsumed_change (hpresents : session.request.presents.isSome)
    (hphase : session.phase = .started ∨ ∃ candidate, session.phase = .consuming candidate) :
    Change hashing w txn session (w.unconsumed txn session) := by
  have hunfinished : session.phase.isFinished = false := by
    rcases hphase with hphase | ⟨candidate, hphase⟩ <;> rw [hphase] <;> rfl
  unfold unconsumed
  split
  · rename_i outcome houtcome
    refine .rollback hunfinished ?_
    rintro rfl
    cases hrequest : session.request <;> simp [hrequest, Request.unconsumed] at houtcome
  · have hprogram : session.request.Program session.user none [] := by
      cases hrequest : session.request <;> simp_all [Request.unconsumed, Request.presents]
      exact .consumeAuthToken
    exact .moves (.begin hphase hprogram (.inl rfl))

theorem findAuthToken_change {rawToken : String} {purpose : Purpose}
    (hpresents : session.request.presents.isSome) (hphase : session.phase = .started) :
    Change hashing w txn session (w.findAuthToken hashing txn session rawToken purpose) := by
  unfold findAuthToken
  dsimp only
  split
  · exact unconsumed_change hpresents (.inl hphase)
  · exact .moves (.seek hphase hpresents)

theorem consumeAuthToken_change {candidate : ℕ} (hphase : session.phase = .consuming candidate)
    (h : w.consumeAuthToken hashing txn session candidate = some w') :
    Change hashing w txn session w' := by
  unfold consumeAuthToken at h
  cases hpresents : session.request.presents with
  | none => simp [hpresents] at h
  | some presented =>
    obtain ⟨rawToken, purpose⟩ := presented
    have hunconsumed : Change hashing w txn session (w.unconsumed txn session) :=
      unconsumed_change (by rw [hpresents]; rfl) (.inr ⟨candidate, hphase⟩)
    cases hfound : w.authTokens.get? candidate with
    | none => simp [hpresents, hfound] at h
    | some row =>
      simp only [hpresents, hfound, Option.ite_none_right_eq_some] at h
      obtain ⟨hfree, h⟩ := h
      cases hvisible : row.visible txn with
      | none =>
        simp only [hvisible, Option.some.injEq] at h
        exact h ▸ hunconsumed
      | some =>
        simp only [hvisible] at h
        split at h
        · cases h
          exact .consume hphase hpresents hfound hfree hvisible ‹_›
        · cases h
          exact hunconsumed

theorem afterConsumption_change {userId : ℕ} {sentToEmail : String}
    (hok : session.Ok) (hphase : session.phase = .consumed userId sentToEmail)
    (h : w.afterConsumption txn session userId sentToEmail = some w') :
    Change hashing w txn session w' := by
  have hunfinished : session.phase.isFinished = false := by
    rw [hphase]
    rfl
  have hpresents : session.request.presents.isSome := by
    simp only [Session.Ok, hphase] at hok
    exact hok.2.2.2.2
  unfold afterConsumption at h
  cases hrequest : session.request with
  | verifyEmail =>
    simp only [hrequest] at h
    cases hread : read txn userId w.users with
    | none =>
      simp only [hread, Option.some.injEq] at h
      exact h ▸ refuse_change hunfinished
    | some =>
      simp only [hread] at h
      split at h
      · cases h
        exact .moves (.consumed hphase (hrequest ▸ .emailVerified))
      · split at h
        · cases h
          exact refuse_change hunfinished
        · cases h
          exact .moves (.consumed hphase (hrequest ▸ .verifyEmail))
  | resetPassword =>
    simp only [hrequest] at h
    cases hread : read txn userId w.users with
    | none =>
      simp only [hread, Option.some.injEq] at h
      exact h ▸ refuse_change hunfinished
    | some =>
      simp only [hread] at h
      split at h
      · cases h
        exact .moves (.consumed hphase (hrequest ▸ .resetPassword))
      · cases h
        exact refuse_change hunfinished
  | confirmAccountDeletion =>
    simp only [hrequest] at h
    cases hread : read txn userId w.users with
    | none =>
      simp only [hread, Option.some.injEq] at h
      exact h ▸ refuse_change hunfinished
    | some =>
      simp only [hread] at h
      split at h
      · cases h
      · cases h
        exact .moves (.consumed hphase (hrequest ▸ .confirmAccountDeletion))
  | consumeAuthToken =>
    simp only [hrequest, Option.some.injEq] at h
    exact h ▸ .moves (.consumed hphase (hrequest ▸ .consumeAuthToken))
  -- the other requests present no token
  | _ => simp [hrequest, Request.presents] at hpresents

theorem beginChangePassword_change {userId : ℕ} {currentPassword newPasswordHash : String}
    (hrequest : session.request = .changePassword userId currentPassword newPasswordHash)
    (hphase : session.phase = .started) :
    Change hashing w txn session
      (w.beginChangePassword hashing txn session userId currentPassword newPasswordHash) := by
  have hunfinished : session.phase.isFinished = false := by
    rw [hphase]
    rfl
  unfold beginChangePassword
  split
  · exact refuse_change hunfinished
  · split
    · exact refuse_change hunfinished
    · split
      · exact refuse_change hunfinished
      · exact .moves (.begin (.inl hphase) (hrequest ▸ .changePassword) (.inl rfl))

theorem beginLogin_change {identifier password newToken : String} {ttlSeconds : ℕ}
    (hrequest : session.request = .loginUser identifier password newToken ttlSeconds)
    (hphase : session.phase = .started) :
    Change hashing w txn session
      (w.beginLogin hashing txn session identifier password newToken ttlSeconds) := by
  have hunfinished : session.phase.isFinished = false := by
    rw [hphase]
    rfl
  unfold beginLogin
  split
  · exact refuse_change hunfinished
  · split
    · exact refuse_change hunfinished
    · split
      · exact refuse_change hunfinished
      · exact .moves (.begin (.inl hphase) (hrequest ▸ .loginUser rfl rfl) (.inr fun _ huser => by
          rw [Option.some.inj huser]))

theorem findVisible_eq_some {V : Type} {p : V → Bool} {s : Store V} {id : ℕ} {version : V}
    (h : findVisible txn p s = some (id, version)) :
    ∃ row, s.get? id = some row ∧ row.visible txn = some version ∧ p version = true := by
  obtain ⟨row, hrow, h⟩ := List.exists_of_findSome?_eq_some h
  simp only [Option.map_eq_some_iff, Option.filter_eq_some_iff, Prod.mk.injEq] at h
  obtain ⟨_, ⟨hvisible, hp⟩, rfl, rfl⟩ := h
  exact ⟨row, Table.get?_key hrow, hvisible, hp⟩

theorem beginRefresh_change {refreshToken : String} (hphase : session.phase = .started) :
    Change hashing w txn session (w.beginRefresh hashing txn session refreshToken) := by
  have hunfinished : session.phase.isFinished = false := by
    rw [hphase]
    rfl
  unfold beginRefresh
  split
  · exact refuse_change hunfinished
  · split
    · exact refuse_change hunfinished
    · rename_i id token hfound hvalid
      obtain ⟨row, hrow, hvisible, -⟩ := findVisible_eq_some hfound
      exact .moves (.readToken hphase hrow hvisible (by_contra fun h => hvalid (.inl h)))

theorem afterTokenRead_change {id : ℕ} {token : RefreshToken}
    (hphase : session.phase = .tokenRead id token)
    (h : w.afterTokenRead hashing txn session id token = some w') :
    Change hashing w txn session w' := by
  have hunfinished : session.phase.isFinished = false := by
    rw [hphase]
    rfl
  unfold afterTokenRead at h
  split at h
  · rename_i hrequest
    split at h
    · cases h
      exact refuse_change hunfinished
    · split at h
      · cases h
        exact .moves (.exchange hphase (hrequest ▸ .refreshTokens rfl rfl))
      · cases h
        exact refuse_change hunfinished
  · cases h

theorem beginLogout_change {refreshToken : String}
    (hrequest : session.request = .logout refreshToken)
    (hphase : session.phase = .started) :
    Change hashing w txn session (w.beginLogout hashing txn session refreshToken) := by
  have hprogram {id : ℕ} {token : RefreshToken} : session.request.Program session.user none
      (if token.revokedAt = none then [.revokeRefreshToken id] else []) := by
    rw [hrequest]
    split
    · exact .logout
    · exact .loggedOut
  unfold beginLogout
  split
  · exact .moves (.begin (.inl hphase) (hrequest ▸ .loggedOut) (.inl rfl))
  · exact .moves (.begin (.inl hphase) hprogram (.inl rfl))

theorem begin_change (hphase : session.phase = .started) :
    Change hashing w txn session (w.begin hashing txn session) := by
  unfold begin
  split
  · rename_i hrequest
    exact .moves (.begin (.inl hphase) (hrequest ▸ .issueAuthToken ⟨rfl, rfl⟩) (.inl rfl))
  · rename_i hrequest
    exact .moves (.begin (.inl hphase) (hrequest ▸ .revokeActiveTokens) (.inl rfl))
  · exact findAuthToken_change (by simp [*, Request.presents]) hphase
  · exact findAuthToken_change (by simp [*, Request.presents]) hphase
  · exact findAuthToken_change (by simp [*, Request.presents]) hphase
  · exact beginChangePassword_change ‹_› hphase
  · exact findAuthToken_change (by simp [*, Request.presents]) hphase
  · exact beginLogin_change ‹_› hphase
  · exact beginRefresh_change hphase
  · exact beginLogout_change ‹_› hphase

theorem execute_change {statement : Statement} {todo : List Statement}
    (hphase : session.phase = .running (statement :: todo))
    (h : w.execute txn session statement todo = some w') : Change hashing w txn session w' := by
  have hunfinished : session.phase.isFinished = false := by
    rw [hphase]
    rfl
  unfold execute at h
  split at h
  · split at h
    · cases h
    · cases h
      exact .moves (.updateUser hphase)
  · cases h
    exact .moves (.findRefreshTokens hphase)
  · cases h
    exact .moves (.findAuthTokens hphase)
  · unfold insertAuthToken at h
    split at h
    · cases h
      exact .insertAuthToken hphase ‹_›
    · cases h
      exact .rollback hunfinished (by decide)
    · cases h
      exact .rollback hunfinished (by decide)
    · cases h
  · split at h
    · cases h
    · rename_i hupdate
      cases h
      obtain ⟨row, hfound, hfree, hvisible, rfl⟩ := update_cases hupdate
      exact .revokeRefreshToken hphase hfound hfree hvisible
  · unfold insertRefreshToken at h
    split at h
    · cases h
      exact .insertRefreshToken hphase
    · cases h
      exact .rollback hunfinished (by decide)
    · cases h

/-- Every step of a request is one of the changes. -/
theorem advance_change (hok : session.Ok) (h : w.advance hashing txn session next = some w') :
    Change hashing w txn session w' := by
  unfold advance at h
  split at h
  · cases h
    exact begin_change ‹_›
  · exact consumeAuthToken_change ‹_› h
  · exact afterConsumption_change hok ‹_› h
  · exact afterTokenRead_change ‹_› h
  · cases h
    exact .commit ‹_›
  · exact execute_change ‹_› h
  · cases h
    exact .moves (.refreshTokensRevoked ‹_›)
  · rename_i hphase
    simp only [Option.ite_none_right_eq_some, Option.map_eq_some_iff] at h
    obtain ⟨hnext, refreshTokens, hupdate, rfl⟩ := h
    rcases updateIf_cases hupdate with ⟨rfl, hpassed⟩ |
      ⟨row, token, hfound, hfree, hvisible, hp, rfl⟩
    · exact .moves (.passRefreshToken hphase hpassed)
    · exact .revokeRefreshTokens hphase hfound hfree hvisible hp
  · cases h
    exact .moves (.authTokensRevoked ‹_›)
  · rename_i hphase
    simp only [Option.ite_none_right_eq_some, Option.map_eq_some_iff] at h
    obtain ⟨hnext, authTokens, hupdate, rfl⟩ := h
    rcases updateIf_cases hupdate with ⟨rfl, hpassed⟩ |
      ⟨row, token, hfound, hfree, hvisible, hp, rfl⟩
    · exact .moves (.passAuthToken hphase hpassed)
    · exact .revokeAuthToken hphase hfound hfree hvisible hp
  · cases h

end World

/-! ### What a session carries -/

section programs

variable {request : Request} {user exchange : Option ℕ} {program : List Statement} {userId : ℕ}

/-- A revocation is about the user of the request. -/
theorem Request.Program.user_of_revokeAuthTokens {purpose : Option Purpose}
    (h : request.Program user exchange program)
    (hmem : .revokeAuthTokens userId purpose ∈ program) : user = some userId := by
  cases h <;> simp [revokeCredentialsAfterPasswordChange] at hmem ⊢ <;> omega

theorem Request.Program.user_of_revokeRefreshTokens (h : request.Program user exchange program)
    (hmem : .revokeRefreshTokens userId ∈ program) : user = some userId := by
  cases h <;> simp [revokeCredentialsAfterPasswordChange] at hmem ⊢ <;> omega

theorem Request.Program.active_of_insertAuthToken {token : AuthToken}
    (h : request.Program user exchange program) (hmem : .insertAuthToken token ∈ program) :
    token.Active := by
  cases h <;> simp [revokeCredentialsAfterPasswordChange] at hmem
  rw [hmem]
  assumption

/-- The request gives out a refresh token. -/
def Request.issuesRefreshToken : Request → Bool
  | .loginUser _ _ _ _ | .refreshTokens _ _ _ => true
  | _ => false

/-- A new refresh token belongs to the user of the request, and is its last statement. -/
theorem Request.Program.insertRefreshToken {token : RefreshToken} {todo : List Statement}
    (h : request.Program user exchange program)
    (hsuffix : .insertRefreshToken token :: todo <:+ program) :
    user = some token.userId ∧ token.revokedAt = none ∧ request.issuesRefreshToken = true ∧
      todo = [] := by
  cases h <;>
    simp_all [revokeCredentialsAfterPasswordChange, List.suffix_cons_iff,
      Request.issuesRefreshToken]

/-- A request that exchanges a token revokes it, and no other. -/
theorem Request.Program.revokeRefreshToken_mem {id : ℕ}
    (h : request.Program user (some id) program) : .revokeRefreshToken id ∈ program := by
  cases h
  exact List.mem_cons_self

theorem Request.Program.exchange_of_revokeRefreshToken {id : ℕ}
    (h : request.Program user exchange program) (hmem : .revokeRefreshToken id ∈ program) :
    exchange = none ∨ exchange = some id := by
  cases h <;> simp_all [revokeCredentialsAfterPasswordChange]

end programs

section sessions

variable {hashing : Hashing} {w w' : World} {txn userId : ℕ} {session session' : Session}
  {statement : Statement} {todo : List Statement}

theorem Session.Runs.tail (h : session.Runs (statement :: todo)) : session.Runs todo := by
  obtain ⟨program, hprogram, hsuffix⟩ := h
  exact ⟨program, hprogram, (List.suffix_cons statement todo).trans hsuffix⟩

theorem Session.Runs.user_of_revokeAuthTokens {purpose : Option Purpose}
    (h : session.Runs (.revokeAuthTokens userId purpose :: todo)) : session.user = some userId := by
  obtain ⟨program, hprogram, hsuffix⟩ := h
  exact hprogram.user_of_revokeAuthTokens (hsuffix.subset List.mem_cons_self)

theorem Session.Runs.user_of_revokeRefreshTokens
    (h : session.Runs (.revokeRefreshTokens userId :: todo)) : session.user = some userId := by
  obtain ⟨program, hprogram, hsuffix⟩ := h
  exact hprogram.user_of_revokeRefreshTokens (hsuffix.subset List.mem_cons_self)

theorem Session.Runs.active_of_insertAuthToken {token : AuthToken}
    (h : session.Runs (.insertAuthToken token :: todo)) : token.Active := by
  obtain ⟨program, hprogram, hsuffix⟩ := h
  exact hprogram.active_of_insertAuthToken (hsuffix.subset List.mem_cons_self)

theorem Session.Runs.insertRefreshToken {token : RefreshToken}
    (h : session.Runs (.insertRefreshToken token :: todo)) :
    session.user = some token.userId ∧ token.revokedAt = none ∧
      session.request.issuesRefreshToken = true ∧ todo = [] := by
  obtain ⟨program, hprogram, hsuffix⟩ := h
  exact hprogram.insertRefreshToken hsuffix

theorem Session.Runs.exchange_of_revokeRefreshToken {id : ℕ}
    (h : session.Runs (.revokeRefreshToken id :: todo)) :
    session.exchange = none ∨ session.exchange = some id := by
  obtain ⟨program, hprogram, hsuffix⟩ := h
  exact hprogram.exchange_of_revokeRefreshToken (hsuffix.subset List.mem_cons_self)

theorem Session.Moves.request_eq (h : session.Moves w txn session') :
    session'.request = session.request := by
  cases h <;> rfl

theorem Session.Moves.consumption_eq (h : session.Moves w txn session') :
    session'.consumption = session.consumption := by
  cases h <;> rfl

theorem Session.Moves.unfinished (h : session.Moves w txn session') :
    session'.phase.isFinished = false := by
  cases h <;> rfl

theorem Session.Moves.was_unfinished (h : session.Moves w txn session') :
    session.phase.isFinished = false ∧ session.phase ≠ .running [] := by
  cases h with
  | begin phase =>
    rcases phase with phase | ⟨candidate, phase⟩ <;> rw [phase]
    · exact ⟨rfl, fun h => by cases h⟩
    · exact ⟨rfl, fun h => by cases h⟩
  | _ => simp [*, Phase.isFinished]

theorem Session.Moves.ok (hok : session.Ok) (h : session.Moves w txn session') : session'.Ok := by
  cases h with
  | seek phase presents =>
    simp only [Session.Ok, phase] at hok ⊢
    exact ⟨hok.1, hok.2.1, hok.2.2.1, hok.2.2.2, presents⟩
  | begin phase program =>
    have hexchange : session.exchange = none := by
      rcases phase with phase | ⟨candidate, phase⟩ <;> simp only [Session.Ok, phase] at hok
      · exact hok.2.1
      · exact hok.2.1
    exact ⟨_, by rw [hexchange]; exact program, List.suffix_refl _⟩
  | readToken phase =>
    simp only [Session.Ok, phase] at hok
    exact ⟨rfl, hok.1, hok.2.1, hok.2.2.1⟩
  | exchange phase program =>
    simp only [Session.Ok, phase] at hok
    exact ⟨_, by rw [hok.1]; exact program, List.suffix_refl _⟩
  | consumed phase program =>
    simp only [Session.Ok, phase] at hok
    exact ⟨_, by rw [hok.1, hok.2.1]; exact program, List.suffix_refl _⟩
  | updateUser phase | refreshTokensRevoked phase | authTokensRevoked phase =>
    simp only [Session.Ok, phase] at hok
    exact hok.tail
  | findRefreshTokens phase | findAuthTokens phase | passRefreshToken phase | passAuthToken phase =>
    simp only [Session.Ok, phase] at hok
    exact hok

/-- Every session carries what its phase says. -/
def World.SessionsOk (w : World) : Prop := ∀ txn session, w.requests txn = some session → session.Ok

theorem World.SessionsOk.update (hok : w.SessionsOk)
    (hrequests : w'.requests = Function.update w.requests txn (some session'))
    (hnew : session'.Ok) : w'.SessionsOk := by
  intro other s hs
  rw [hrequests] at hs
  obtain ⟨-, rfl⟩ | ⟨-, hkept⟩ := of_update_some hs
  · exact hnew
  · exact hok other s hkept

/-- What holds of a session, and of the new one if it is the one that is replaced. -/
theorem World.exists_request {P : Session → Prop} {other : ℕ} {s : Session}
    (hsession : w.requests txn = some session)
    (hrequests : w'.requests = Function.update w.requests txn (some session'))
    (hkept : P session → P session') (hs : w.requests other = some s) (h : P s) :
    ∃ s, w'.requests other = some s ∧ P s := by
  rw [hrequests]
  by_cases hother : other = txn
  · subst hother
    obtain rfl : session = s := Option.eq_some_unique hsession hs
    exact ⟨session', Function.update_self .., hkept h⟩
  · exact ⟨s, (Function.update_of_ne hother ..).trans hs, h⟩

/-- A step of a request replaces its session, and only that. -/
theorem World.Change.requests_eq (hok : session.Ok) (h : w.Change hashing txn session w') :
    ∃ session', w'.requests = Function.update w.requests txn (some session') ∧ session'.Ok ∧
      session'.request = session.request := by
  cases h with
  | moves moves => exact ⟨_, rfl, moves.ok hok, moves.request_eq⟩
  | consume phase =>
    simp only [Session.Ok, phase] at hok
    refine ⟨_, rfl, ⟨rfl, hok.2.1, hok.2.2.1, hok.2.2.2⟩, rfl⟩
  | revokeAuthToken phase | revokeRefreshTokens phase =>
    simp only [Session.Ok, phase] at hok
    exact ⟨_, rfl, hok, rfl⟩
  | insertAuthToken phase | revokeRefreshToken phase | insertRefreshToken phase =>
    simp only [Session.Ok, phase] at hok
    exact ⟨_, rfl, hok.tail, rfl⟩
  | commit => exact ⟨_, rfl, trivial, rfl⟩
  | rollback => exact ⟨_, rfl, trivial, rfl⟩

/-- A step starts a request, or is a step of one: its next, or its failure. -/
theorem step_cases {a : Action} (hok : w.SessionsOk) (h : step hashing w a = some w') :
    (∃ txn request now, w.requests txn = none ∧ w' = w.goto txn (.start request now) .started) ∨
    ∃ txn session, w.requests txn = some session ∧ w.Change hashing txn session w' ∧
      ((∃ next, a = .advance txn next) ∨ ∃ outcome, w' = w.rollback txn session outcome) := by
  cases a with
  | start txn request now =>
    simp only [step] at h
    split at h
    · cases h
    · cases h
      exact .inl ⟨txn, request, now, ‹_›, rfl⟩
  | advance txn next =>
    simp only [step] at h
    split at h
    · cases h
    · rename_i session hsession
      exact .inr ⟨txn, session, hsession, World.advance_change (hok txn session hsession) h,
        .inl ⟨next, rfl⟩⟩
  | abort txn =>
    simp only [step] at h
    split at h
    · cases h
    · rename_i session hsession
      simp only [Option.ite_none_left_eq_some, Bool.not_eq_true, Option.some.injEq] at h
      obtain ⟨hunfinished, rfl⟩ := h
      exact .inr ⟨txn, session, hsession, .rollback hunfinished (by decide), .inr ⟨.aborted, rfl⟩⟩

theorem World.Starts.sessionsOk (h : w.Starts) : w.SessionsOk := fun txn session hsession => by
  rw [h.requests txn] at hsession
  cases hsession

end sessions

end IChat.Auth
