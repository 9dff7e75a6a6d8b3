import Mathlib.Logic.Relation
import IChat.Auth.RequestSteps

/-!
# Refresh tokens

The tokens of `refresh_tokens` under any interleaving of the requests about credentials. A refresh
reads its token without a lock and revokes it with an `UPDATE` that looks at nothing but the key; a
login reads the user without a lock; and a change of the password revokes the tokens that were
committed when its bulk update started.

* `World.Stale` says which tokens a change of the password should have ended: those of a login that
  had read the old password, and those that descend from a token issued before.
* `Meets` is the condition under which a step keeps the tokens sound: nothing that the request has
  read has changed since in the way that matters. `RefreshInv` is kept by every such step.

`refreshTokens` is the result for the runs that meet the condition; `refreshTokens_twoTabs`
is a run that does not, in which one token is exchanged twice and a login survives a change of the
password.
-/

namespace IChat.Auth

open ReadCommitted StepSystem

/-- The refresh token can be exchanged at the moment. -/
def RefreshToken.Active (now : ℕ) (token : RefreshToken) : Prop :=
  token.revokedAt = none ∧ now < token.expiresAt

instance (now : ℕ) (token : RefreshToken) : Decidable (token.Active now) :=
  inferInstanceAs (Decidable (_ ∧ _))

namespace World

/-- The version of the refresh token that is committed. -/
def CommittedRefresh (w : World) (id : ℕ) (token : RefreshToken) : Prop :=
  ∃ row, w.refreshTokens.get? id = some row ∧ row.committed = some token

/-- The token was given out for the other one. -/
def Refreshed (w : World) (id parent : ℕ) : Prop :=
  ∃ issue, w.issues id = some issue ∧ issue.parent = some parent

/-- The token descends from the other one through any number of refreshes. -/
def Descends (w : World) : ℕ → ℕ → Prop := Relation.ReflTransGen w.Refreshed

/-- The token should not have survived a change of the password, the `n`-th of its user: it comes
from a login that had read the user before, or descends from a token issued before. -/
def Stale (w : World) (n id : ℕ) : Prop :=
  (∃ issue, w.issues id = some issue ∧ issue.parent = none ∧ issue.readAt ≤ n) ∨
    ∃ ancestor issue, w.Descends id ancestor ∧ w.issues ancestor = some issue ∧
      issue.issuedAt ≤ n

/-- What is promised of the refresh tokens in a state that is reached. -/
structure RefreshTokens (w : World) : Prop where
  once : w.exchanges.Nodup
  fresh : ∀ id token now n, w.CommittedRefresh id token → token.Active now →
    n < w.changesOf token.userId → ¬w.Stale n id

/-- The token and everything it descends from has been issued, and its login has read the user,
after `n` changes of the password. -/
def Clean (w : World) (n id : ℕ) : Prop :=
  ∀ ancestor, w.Descends id ancestor → ∃ issue, w.issues ancestor = some issue ∧
    n ≤ issue.issuedAt ∧ (issue.parent = none → n ≤ issue.readAt)

end World

/-- The condition on the next statement of a request. -/
def Phase.Meets (w : World) (txn : ℕ) (session : Session) : Phase → Prop
  -- a refresh: the token that it exchanges has not been revoked since it was read
  | .running (.revokeRefreshToken id :: _) =>
    session.exchange = some id → ∀ row ∈ w.refreshTokens.get? id, ∀ token ∈ row.visible txn,
      token.revokedAt = none
  | .running [] =>
    -- a login or a refresh: the password has not been changed since the user or the token was read
    (session.request.issuesRefreshToken = true → ∀ userId ∈ session.user,
      session.readAt = w.changesOf userId) ∧
    -- a change of the password: its bulk update has found every token that is still valid
    (session.request.changesPassword = true → ∀ userId ∈ session.user, ∀ row ∈ w.refreshTokens,
      ∀ token ∈ row.committed, token.userId = userId → token.revokedAt = none →
        row.id ∈ session.snapshot)
  | _ => True

def Session.Meets (w : World) (txn : ℕ) (session : Session) : Prop :=
  session.phase.Meets w txn session

/-- The condition on a step. -/
def Meets (w : World) : Action → Prop
  | .advance txn _ => ∀ session ∈ w.requests txn, session.Meets w txn
  | _ => True

instance (w : World) (txn : ℕ) (session : Session) : ∀ phase,
    Decidable (Phase.Meets w txn session phase)
  | .running (.revokeRefreshToken _ :: _) =>
    inferInstanceAs (Decidable (_ → ∀ row ∈ w.refreshTokens.get? _, _))
  | .running [] =>
    inferInstanceAs (Decidable ((_ → ∀ userId ∈ session.user, _) ∧
      (_ → ∀ userId ∈ session.user, ∀ row ∈ w.refreshTokens, ∀ token ∈ row.committed, _ → _ → _)))
  | .started | .consuming _ | .consumed _ _ | .tokenRead _ _ | .revokingRefreshTokens _ _ _
  | .revokingAuthTokens _ _ _ _ | .finished _ | .running (.updateUser _ _ :: _)
  | .running (.revokeRefreshTokens _ :: _) | .running (.revokeAuthTokens _ _ :: _)
  | .running (.insertAuthToken _ :: _) | .running (.insertRefreshToken _ :: _) => isTrue trivial

instance (w : World) : ∀ a, Decidable (Meets w a)
  | .advance txn _ =>
    inferInstanceAs (Decidable (∀ session ∈ w.requests txn,
      Phase.Meets w txn session session.phase))
  | .start _ _ _ | .abort _ => isTrue trivial

/-- The statements that come after the current one. -/
def Phase.todo : Phase → List Statement
  | .running todo | .revokingRefreshTokens _ _ todo | .revokingAuthTokens _ _ _ todo => todo
  | _ => []

/-- The refresh tokens that a bulk update has still to come to. -/
def Phase.remaining : Phase → List ℕ
  | .revokingRefreshTokens _ remaining _ => remaining
  | _ => []

/-- What a request makes of a refresh token that it holds: one that is committed has been revoked,
and one that it has inserted is its last statement. -/
structure Session.HoldsRefresh (w : World) (session : Session) (id : ℕ)
    (committed : Option RefreshToken) (version : RefreshToken) : Prop where
  unfinished : session.phase.isFinished = false
  revoked : ∀ token ∈ committed, version.revokedAt ≠ none ∧ version.userId = token.userId
  inserted : committed = none → session.phase = .running [] ∧ session.user = some version.userId ∧
    session.request.issuesRefreshToken = true ∧ w.Clean session.readAt id

/-- The request has revoked the token that it exchanges, which nobody has exchanged. -/
def World.Exchanging (w : World) (txn id : ℕ) : Prop :=
  id ∉ w.exchanges ∧ ∃ row version, w.refreshTokens.get? id = some row ∧
    row.pending = some (txn, version) ∧ version.revokedAt ≠ none

/-- A committed row that a bulk update has passed. -/
def World.PassedRefresh (w : World) (txn id userId : ℕ) : Prop :=
  ∃ row token, w.refreshTokens.get? id = some row ∧ row.committed = some token ∧
    row.Passed (RefreshToken.revocable userId) txn

/-- What a request in progress knows. -/
structure World.SessionClean (w : World) (txn : ℕ) (session : Session) : Prop where
  found : ∀ id ∈ session.snapshot, ∃ token, w.CommittedRefresh id token
  read : ∀ userId ∈ session.user, session.readAt ≤ w.changesOf userId
  tokenRead : ∀ id token, session.phase = .tokenRead id token → w.Clean session.readAt id
  exchange : ∀ id ∈ session.exchange, w.Clean session.readAt id ∧
    (.revokeRefreshToken id ∈ session.phase.todo ∨ w.Exchanging txn id)
  snapshot : ∀ id ∈ session.snapshot, id ∈ session.phase.remaining ∨
    ∀ userId ∈ session.user, w.PassedRefresh txn id userId

structure RefreshInv (w : World) : Prop where
  sessions : w.SessionsOk
  held : ∀ {id row txn version}, w.refreshTokens.get? id = some row →
    row.pending = some (txn, version) →
    ∃ session, w.requests txn = some session ∧ session.HoldsRefresh w id row.committed version
  known : ∀ {txn session}, w.requests txn = some session → session.phase.isFinished = false →
    w.SessionClean txn session
  clean : ∀ {id token}, w.CommittedRefresh id token → token.revokedAt = none →
    w.Clean (w.changesOf token.userId) id
  exchanged : ∀ {id}, id ∈ w.exchanges → ∃ token, w.CommittedRefresh id token ∧
    token.revokedAt ≠ none
  nodup : w.exchanges.Nodup
  issued : ∀ {id}, w.issues id ≠ none → id < w.refreshTokens.next

section refreshTokens

variable {hashing : Hashing} {w w' : World} {txn other id n : ℕ} {session session' : Session}
  {row : Row RefreshToken} {token version : RefreshToken}

/-! ### Descent -/

theorem World.Clean.not_stale {m : ℕ} (h : w.Clean n id) (hm : m < n) : ¬w.Stale m id := by
  rintro (⟨issue, hissue, hparent, hread⟩ | ⟨ancestor, issue, hdescends, hissue, hissued⟩)
  · obtain ⟨issue', hissue', -, hread'⟩ := h id Relation.ReflTransGen.refl
    obtain rfl : issue = issue' := Option.eq_some_unique hissue hissue'
    have hle := hread' hparent
    omega
  · obtain ⟨issue', hissue', hle, -⟩ := h ancestor hdescends
    obtain rfl : issue = issue' := Option.eq_some_unique hissue hissue'
    omega

/-- A new token has no effect on what another one descends from. -/
theorem World.Clean.issue {fresh : ℕ} {issue : Issue} (h : w.Clean n id)
    (hfresh : w.issues fresh = none)
    (hissues : w'.issues = Function.update w.issues fresh (some issue)) : w'.Clean n id := by
  have hold {a : ℕ} (ha : w.issues a ≠ none) : w'.issues a = w.issues a := by
    rw [hissues, Function.update_of_ne]
    rintro rfl
    exact ha hfresh
  intro ancestor hdescends
  have hboth : w.Descends id ancestor := by
    induction hdescends with
    | refl => exact Relation.ReflTransGen.refl
    | @tail a b _ hlast ih =>
      obtain ⟨issue', hissue', -⟩ := h a ih
      obtain ⟨last, hlast, hparent⟩ := hlast
      rw [hold (by rw [hissue']; exact Option.some_ne_none _)] at hlast
      exact ih.tail ⟨last, hlast, hparent⟩
  obtain ⟨issue', hissue', hclean⟩ := h ancestor hboth
  exact ⟨issue', by rw [hold (by rw [hissue']; exact Option.some_ne_none _), hissue'], hclean⟩

/-- A new token is as clean as the token that it was given out for. -/
theorem World.Clean.fresh {fresh : ℕ} {issue : Issue} (hfresh : w.issues fresh = none)
    (hissues : w'.issues = Function.update w.issues fresh (some issue))
    (hissued : n ≤ issue.issuedAt)
    (hread : issue.parent = none → n ≤ issue.readAt)
    (hparent : ∀ parent ∈ issue.parent, w.Clean n parent) : w'.Clean n fresh := by
  have hself : w'.issues fresh = some issue := by
    rw [hissues, Function.update_self]
  intro ancestor hdescends
  rcases Relation.ReflTransGen.cases_head hdescends with rfl | ⟨parent, ⟨first, hfirst, hp⟩, hrest⟩
  · exact ⟨issue, hself, hissued, hread⟩
  · obtain rfl : issue = first := Option.eq_some_unique hself hfirst
    exact (hparent parent hp).issue hfresh hissues ancestor hrest

theorem World.Clean.of_issues (h : w.Clean n id) (hissues : w'.issues = w.issues) :
    w'.Clean n id := by
  unfold World.Clean World.Descends World.Refreshed at h ⊢
  rw [hissues]
  exact h

theorem RefreshInv.issues_next (hinv : RefreshInv w) : w.issues w.refreshTokens.next = none := by
  by_contra h
  exact lt_irrefl _ (hinv.issued h)

/-! ### What others leave as it is -/

/-- What a step of another request may change for a request. -/
structure World.Undisturbed (txn : ℕ) (w w' : World) : Prop where
  changes : ∀ userId, w.changesOf userId ≤ w'.changesOf userId
  clean : ∀ {n id}, w.Clean n id → w'.Clean n id
  exchanging : ∀ {id}, w.Exchanging txn id → w'.Exchanging txn id
  committed : ∀ {id token}, w.CommittedRefresh id token → ∃ token', w'.CommittedRefresh id token'
  passed : ∀ {id userId}, w.PassedRefresh txn id userId → w'.PassedRefresh txn id userId

theorem World.SessionClean.undisturbed (h : w.SessionClean txn session)
    (hun : World.Undisturbed txn w w') : w'.SessionClean txn session where
  read userId huser := (h.read userId huser).trans (hun.changes userId)
  tokenRead id token hphase := hun.clean (h.tokenRead id token hphase)
  exchange id hid := ⟨hun.clean (h.exchange id hid).1,
    (h.exchange id hid).2.imp_right hun.exchanging⟩
  found id hid := by
    obtain ⟨token, htoken⟩ := h.found id hid
    exact hun.committed htoken
  snapshot id hid := (h.snapshot id hid).imp_right fun hpassed userId huser =>
    hun.passed (hpassed userId huser)

/-- Nothing that a request knows of has changed. -/
theorem World.Undisturbed.of_eq (htokens : w'.refreshTokens = w.refreshTokens)
    (hexchanges : w'.exchanges = w.exchanges) (hchanges : w'.changes = w.changes)
    (hissues : w'.issues = w.issues) : World.Undisturbed txn w w' where
  changes userId := by
    rw [World.changesOf, World.changesOf, hchanges]
  clean h := h.of_issues hissues
  exchanging h := by
    unfold World.Exchanging at h ⊢
    rwa [htokens, hexchanges]
  committed := fun {_ token} h => ⟨token, by
    unfold World.CommittedRefresh at h ⊢
    rwa [htokens]⟩
  passed h := by
    unfold World.PassedRefresh at h ⊢
    rwa [htokens]

theorem Session.HoldsRefresh.mono {committed : Option RefreshToken}
    (h : session.HoldsRefresh w id committed version)
    (hclean : w.Clean session.readAt id → w'.Clean session.readAt id) :
    session.HoldsRefresh w' id committed version where
  unfinished := h.unfinished
  revoked := h.revoked
  inserted hnone := by
    obtain ⟨hphase, huser, hrequest, hfresh⟩ := h.inserted hnone
    exact ⟨hphase, huser, hrequest, hclean hfresh⟩

/-- The row of a request that does not yet finish holds no token that it has inserted. -/
theorem RefreshInv.committed_of_visible (hinv : RefreshInv w)
    (hsession : w.requests txn = some session) (hlast : session.phase ≠ .running [])
    (hget : w.refreshTokens.get? id = some row) (hvisible : row.visible txn = some token) :
    (∃ old, row.pending = some (txn, token) ∧ row.committed = some old ∧ token.revokedAt ≠ none ∧
      token.userId = old.userId) ∨ row.committed = some token := by
  obtain ⟨version, hheld⟩ | hnot := row.held_or_not txn
  · obtain rfl := Option.eq_some_unique (Row.visible_of_pending hheld) hvisible
    obtain ⟨s, hs, hholds⟩ := hinv.held hget hheld
    obtain rfl : session = s := Option.eq_some_unique hsession hs
    cases hcommitted : row.committed with
    | none => exact absurd (hholds.inserted hcommitted).1 hlast
    | some old =>
      obtain ⟨hrevoked, huser⟩ := hholds.revoked old hcommitted
      exact .inl ⟨old, hheld, rfl, hrevoked, huser⟩
  · exact .inr ((Row.visible_of_not_held hnot).symm.trans hvisible)

theorem RefreshToken.not_revocable {userId : ℕ} (h : token.revokedAt ≠ none) :
    token.revocable userId = false := by
  simp [RefreshToken.revocable, h]

/-- A request, be it the same or another, revokes a token that it may write. -/
theorem World.Undisturbed.revoke (hget : w.refreshTokens.get? id = some row)
    (hfree : row.Free other) (hrevoked : version.revokedAt ≠ none)
    (hexchanges : w'.exchanges = w.exchanges) (hchanges : w'.changes = w.changes)
    (hissues : w'.issues = w.issues)
    (htokens : w'.refreshTokens = w.refreshTokens.set (row.write other version)) :
    World.Undisturbed txn w w' where
  changes userId := by
    rw [World.changesOf, World.changesOf, hchanges]
  clean h := h.of_issues hissues
  exchanging := fun {k} ⟨hfresh, row', held, hget', hpending, hheld⟩ => by
    unfold World.Exchanging
    rw [htokens, hexchanges]
    by_cases hk : k = id
    · subst hk
      obtain rfl : row = row' := Option.eq_some_unique hget hget'
      obtain rfl : txn = other := hfree _ hpending
      exact ⟨hfresh, _, version, get?_set_write_self hget, rfl, hrevoked⟩
    · exact ⟨hfresh, row', held, (get?_set_write_of_ne hget hk).trans hget', hpending, hheld⟩
  committed := fun {k token} ⟨row', hget', hcommitted⟩ => by
    unfold World.CommittedRefresh
    rw [htokens]
    by_cases hk : k = id
    · subst hk
      obtain rfl : row = row' := Option.eq_some_unique hget hget'
      exact ⟨token, _, get?_set_write_self hget, hcommitted⟩
    · exact ⟨token, row', (get?_set_write_of_ne hget hk).trans hget', hcommitted⟩
  passed := fun {k userId} ⟨row', token, hget', hcommitted, hpassed⟩ => by
    unfold World.PassedRefresh
    rw [htokens]
    by_cases hk : k = id
    · subst hk
      obtain rfl : row = row' := Option.eq_some_unique hget hget'
      refine ⟨_, token, get?_set_write_self hget, hcommitted, ?_⟩
      rcases hpassed with hold | ⟨held, hpending, -⟩
      · exact .inl hold
      · obtain rfl : txn = other := hfree _ hpending
        exact .inr ⟨version, rfl, RefreshToken.not_revocable hrevoked⟩
    · exact ⟨row', token, (get?_set_write_of_ne hget hk).trans hget', hcommitted, hpassed⟩

/-- Another request inserts a row. -/
theorem World.Undisturbed.insert {issue : Issue} (hfresh : w.issues w.refreshTokens.next = none)
    (hchanges : w'.changes = w.changes) (hexchanges : w'.exchanges = w.exchanges)
    (hissues : w'.issues = Function.update w.issues w.refreshTokens.next (some issue))
    (htokens : w'.refreshTokens = ReadCommitted.insert other version w.refreshTokens) :
    World.Undisturbed txn w w' := by
  have hold {k : ℕ} {row : Row RefreshToken} (h : w.refreshTokens.get? k = some row) :
      w'.refreshTokens.get? k = some row := by
    rw [htokens, get?_insert_of_some h]
  exact {
    changes := fun userId => by rw [World.changesOf, World.changesOf, hchanges]
    clean := fun h => h.issue hfresh hissues
    exchanging := fun ⟨hnot, row, held, hget, hrest⟩ =>
      ⟨hexchanges ▸ hnot, row, held, hold hget, hrest⟩
    committed := fun {_ token} ⟨row, hget, hcommitted⟩ => ⟨token, row, hold hget, hcommitted⟩
    passed := fun ⟨row, token, hget, hrest⟩ => ⟨row, token, hold hget, hrest⟩ }

/-- Another request commits. -/
theorem World.Undisturbed.commit (hinv : RefreshInv w) (hsession : w.requests other = some session)
    (hphase : session.phase = .running []) (hne : txn ≠ other) :
    World.Undisturbed txn w (w.commit other session) := by
  have hget {k : ℕ} : (w.commit other session).refreshTokens.get? k =
      (w.refreshTokens.get? k).map (Row.commit other) := get?_commit
  have hexchanged {k : ℕ} (hk : k ∈ session.exchange) : w.Exchanging other k := by
    have hclean := hinv.known hsession (by rw [hphase]; rfl)
    rcases (hclean.exchange k hk).2 with htodo | hdone
    · rw [hphase] at htodo
      cases htodo
    · exact hdone
  refine ⟨fun userId => ?_, fun h => h.of_issues rfl, fun {k} h => ?_, fun {k token} h => ?_,
    fun {k userId} h => ?_⟩
  · change w.changes.count userId ≤ List.count userId (if session.request.changesPassword then
      w.changes ++ session.user.toList else w.changes)
    split
    · rw [List.count_append]
      omega
    · exact le_rfl
  · obtain ⟨hnot, row, held, hrow, hpending, hrevoked⟩ := h
    refine ⟨fun hmem => ?_, row, held, by rw [hget, hrow, Option.map_some,
      Row.commit_of_held hne hpending], hpending, hrevoked⟩
    rcases List.mem_append.mp hmem with hmem | hmem
    · exact hnot hmem
    · obtain ⟨-, row', held', hrow', hpending', -⟩ := hexchanged (Option.mem_toList.mp hmem)
      obtain rfl : row = row' := Option.eq_some_unique hrow hrow'
      rw [hpending] at hpending'
      cases hpending'
      exact hne rfl
  · obtain ⟨row, hrow, hcommitted⟩ := h
    have hcommit : ∃ new, (row.commit other).committed = some new := Row.committed_commit hcommitted
    obtain ⟨new, hnew⟩ := hcommit
    exact ⟨new, row.commit other, by rw [hget, hrow, Option.map_some], hnew⟩
  · obtain ⟨row, token, hrow, hcommitted, hpassed⟩ := h
    have hrow' : (w.commit other session).refreshTokens.get? k = some (row.commit other) := by
      rw [hget, hrow, Option.map_some]
    obtain ⟨held, hheld⟩ | hnot := row.held_or_not other
    · obtain ⟨s, -, hholds⟩ := hinv.held hrow hheld
      obtain ⟨hrevoked, -⟩ := hholds.revoked token hcommitted
      rw [Row.commit_of_pending hheld] at hrow'
      refine ⟨_, held, hrow', rfl, .inl fun version hversion => ?_⟩
      cases hversion
      exact RefreshToken.not_revocable hrevoked
    · rw [Row.commit_of_not_held hnot] at hrow'
      exact ⟨row, token, hrow', hcommitted, hpassed⟩

/-- Another request is rolled back. -/
theorem World.Undisturbed.rollback {outcome : Outcome} (hne : txn ≠ other) :
    World.Undisturbed txn w (w.rollback other session outcome) := by
  have hget {k : ℕ} : (w.rollback other session outcome).refreshTokens.get? k =
      (w.refreshTokens.get? k).map (Row.rollback other) := get?_rollback
  refine ⟨fun userId => le_rfl, fun h => h.of_issues rfl, fun {k} h => ?_, fun {k token} h => ?_,
    fun {k userId} h => ?_⟩
  · obtain ⟨hnot, row, held, hrow, hpending, hrevoked⟩ := h
    exact ⟨hnot, row.rollback other, held, by rw [hget, hrow, Option.map_some],
      (Row.pending_rollback_iff hne).mpr hpending, hrevoked⟩
  · obtain ⟨row, hrow, hcommitted⟩ := h
    exact ⟨token, row.rollback other, by rw [hget, hrow, Option.map_some],
      Row.committed_rollback.trans hcommitted⟩
  · obtain ⟨row, token, hrow, hcommitted, hpassed⟩ := h
    refine ⟨row.rollback other, token, by rw [hget, hrow, Option.map_some],
      Row.committed_rollback.trans hcommitted, ?_⟩
    rcases hpassed with hold | ⟨held, hpending, hheld⟩
    · exact .inl (by rwa [Row.committed_rollback])
    · exact .inr ⟨held, (Row.pending_rollback_iff hne).mpr hpending, hheld⟩

/-! ### Steps of one request -/

/-- A row that is not touched is held as before, also by the request that goes on. -/
theorem RefreshInv.held_of_kept (hinv : RefreshInv w) (hsession : w.requests txn = some session)
    (hlast : session.phase ≠ .running []) (hunfinished : session'.phase.isFinished = false)
    (hrequests : w'.requests = Function.update w.requests txn (some session'))
    (hclean : ∀ {n id}, w.Clean n id → w'.Clean n id) {id : ℕ} {row : Row RefreshToken} {other : ℕ}
    {version : RefreshToken} (hget : w.refreshTokens.get? id = some row)
    (hpending : row.pending = some (other, version)) :
    ∃ s, w'.requests other = some s ∧ s.HoldsRefresh w' id row.committed version := by
  obtain ⟨s, hs, hholds⟩ := hinv.held hget hpending
  exact World.exists_request hsession hrequests
    (fun h => ⟨hunfinished, h.revoked, fun hnone => absurd (h.inserted hnone).1 hlast⟩) hs
    (hholds.mono hclean)

/-- The request goes on and the refresh tokens stay as they are. -/
theorem RefreshInv.goto {users : Store User} {authTokens : Store AuthToken} (hinv : RefreshInv w)
    (hsession : w.requests txn = some session) (hlast : session.phase ≠ .running [])
    (hunfinished : session'.phase.isFinished = false) (hok : session'.Ok)
    (hclean : w.SessionClean txn session') :
    RefreshInv { w with
      users, authTokens, requests := Function.update w.requests txn (some session') } where
  sessions := hinv.sessions.update rfl hok
  held hget hpending := by
    refine hinv.held_of_kept hsession hlast hunfinished ?_ ?_ hget hpending
    · rfl
    · exact fun h => h.of_issues rfl
  known hs hbusy := by
    obtain ⟨rfl, rfl⟩ | ⟨-, hkept⟩ := of_update_some hs
    · exact hclean.undisturbed (.of_eq rfl rfl rfl rfl)
    · exact (hinv.known hkept hbusy).undisturbed (.of_eq rfl rfl rfl rfl)
  clean := hinv.clean
  exchanged := hinv.exchanged
  nodup := hinv.nodup
  issued := hinv.issued

theorem committedRefresh_write_iff {k : ℕ} (hget : w.refreshTokens.get? id = some row)
    (htokens : w'.refreshTokens = w.refreshTokens.set (row.write txn version)) :
    w'.CommittedRefresh k token ↔ w.CommittedRefresh k token := by
  unfold World.CommittedRefresh
  rw [htokens]
  exact committed_write_iff hget

/-- The request revokes a token. -/
theorem RefreshInv.revoke {now : ℕ} (hinv : RefreshInv w)
    (hsession : w.requests txn = some session) (hlast : session.phase ≠ .running [])
    (hunfinished : session'.phase.isFinished = false) (hok : session'.Ok)
    (hget : w.refreshTokens.get? id = some row) (hfree : row.Free txn)
    (hvisible : row.visible txn = some token)
    (htokens : w'.refreshTokens =
      w.refreshTokens.set (row.write txn { token with revokedAt := some now }))
    (hexchanges : w'.exchanges = w.exchanges) (hchanges : w'.changes = w.changes)
    (hissues : w'.issues = w.issues)
    (hrequests : w'.requests = Function.update w.requests txn (some session'))
    (hclean : w'.SessionClean txn session') : RefreshInv w' := by
  have hchangesOf (userId : ℕ) : w'.changesOf userId = w.changesOf userId := by
    rw [World.changesOf, World.changesOf, hchanges]
  exact {
    sessions := hinv.sessions.update hrequests hok
    held := fun {k row' holder version} hk hpending => by
      rw [htokens] at hk
      by_cases hkid : k = id
      · subst hkid
        rw [get?_set_write_self hget] at hk
        cases hk
        cases hpending
        rw [hrequests]
        refine ⟨session', Function.update_self .., hunfinished, fun old hold => ?_, fun hnone => ?_⟩
        · refine ⟨Option.some_ne_none _, ?_⟩
          rcases hinv.committed_of_visible hsession hlast hget hvisible with
            ⟨old', -, hcommitted, -, huser⟩ | hcommitted
          · obtain rfl : old' = old := Option.eq_some_unique hcommitted hold
            exact huser
          · obtain rfl : token = old := Option.eq_some_unique hcommitted hold
            rfl
        · rcases hinv.committed_of_visible hsession hlast hget hvisible with
            ⟨old', -, hcommitted, -⟩ | hcommitted
          · cases hcommitted.symm.trans hnone
          · cases hcommitted.symm.trans hnone
      · rw [get?_set_write_of_ne hget hkid] at hk
        exact hinv.held_of_kept hsession hlast hunfinished hrequests (fun h => h.of_issues hissues)
          hk hpending
    known := fun {other s} hs hbusy => by
      rw [hrequests] at hs
      obtain ⟨rfl, rfl⟩ | ⟨-, hkept⟩ := of_update_some hs
      · exact hclean
      · exact (hinv.known hkept hbusy).undisturbed
          (.revoke hget hfree (Option.some_ne_none _) hexchanges hchanges hissues htokens)
    clean := fun {k old} hcommitted hvalid => by
      rw [hchangesOf]
      exact (hinv.clean ((committedRefresh_write_iff hget htokens).mp hcommitted) hvalid).of_issues
        hissues
    exchanged := fun {k} hk => by
      obtain ⟨old, hcommitted, hrevoked⟩ := hinv.exchanged (hexchanges ▸ hk)
      exact ⟨old, (committedRefresh_write_iff hget htokens).mpr hcommitted, hrevoked⟩
    nodup := hexchanges ▸ hinv.nodup
    issued := fun {k} hk => by
      rw [htokens, Table.next_set]
      exact hinv.issued (hissues ▸ hk) }

/-- The request inserts its token. -/
theorem RefreshInv.insert {issue : Issue} (hinv : RefreshInv w)
    (hsession : w.requests txn = some session) (hlast : session.phase ≠ .running [])
    (hok : session'.Ok) (hphase : session'.phase = .running [])
    (huser : session'.user = some token.userId)
    (hrequest : session'.request.issuesRefreshToken = true)
    (htokens : w'.refreshTokens = ReadCommitted.insert txn token w.refreshTokens)
    (hexchanges : w'.exchanges = w.exchanges) (hchanges : w'.changes = w.changes)
    (hissues : w'.issues = Function.update w.issues w.refreshTokens.next (some issue))
    (hrequests : w'.requests = Function.update w.requests txn (some session'))
    (hfresh : w'.Clean session'.readAt w.refreshTokens.next)
    (hclean : w'.SessionClean txn session') : RefreshInv w' := by
  have hunfinished : session'.phase.isFinished = false := by
    rw [hphase]
    rfl
  have hold {k : ℕ} {row : Row RefreshToken} (h : w.refreshTokens.get? k = some row) :
      w'.refreshTokens.get? k = some row := by
    rw [htokens, get?_insert_of_some h]
  have hchangesOf (userId : ℕ) : w'.changesOf userId = w.changesOf userId := by
    rw [World.changesOf, World.changesOf, hchanges]
  exact {
    sessions := hinv.sessions.update hrequests hok
    held := fun {k row holder version} hk hpending => by
      rcases of_get?_insert (htokens ▸ hk) with ⟨rfl, rfl⟩ | hk
      · cases hpending
        rw [hrequests]
        exact ⟨session', Function.update_self .., hunfinished, fun _ h => (by cases h),
          fun _ => ⟨hphase, huser, hrequest, hfresh⟩⟩
      · exact hinv.held_of_kept hsession hlast hunfinished hrequests
          (fun h => h.issue hinv.issues_next hissues) hk hpending
    known := fun {other s} hs hbusy => by
      rw [hrequests] at hs
      obtain ⟨rfl, rfl⟩ | ⟨-, hkept⟩ := of_update_some hs
      · exact hclean
      · exact (hinv.known hkept hbusy).undisturbed
          (.insert hinv.issues_next hchanges hexchanges hissues htokens)
    clean := fun {k old} ⟨row, hrow, hcommitted⟩ hvalid => by
      rw [hchangesOf]
      rcases of_get?_insert (htokens ▸ hrow) with ⟨-, rfl⟩ | hrow
      · cases hcommitted
      · exact (hinv.clean ⟨row, hrow, hcommitted⟩ hvalid).issue hinv.issues_next hissues
    exchanged := fun {k} hk => by
      obtain ⟨old, ⟨row, hrow, hcommitted⟩, hrevoked⟩ := hinv.exchanged (hexchanges ▸ hk)
      exact ⟨old, ⟨row, hold hrow, hcommitted⟩, hrevoked⟩
    nodup := hexchanges ▸ hinv.nodup
    issued := fun {k} hk => by
      have hnext : w'.refreshTokens.next = w.refreshTokens.next + 1 := by
        rw [htokens]
        rfl
      rw [hnext]
      by_cases hkn : k = w.refreshTokens.next
      · omega
      · rw [hissues, Function.update_of_ne hkn] at hk
        have hlt := hinv.issued hk
        omega }

/-- A change of the password that meets its condition leaves no valid token of the user. -/
theorem RefreshInv.revoked_by_change (hinv : RefreshInv w)
    (hsession : w.requests txn = some session) (hphase : session.phase = .running [])
    (hmeets : session.Meets w txn) (hrequest : session.request.changesPassword = true)
    (hcommitted : (w.commit txn session).CommittedRefresh id token)
    (huser : session.user = some token.userId) : token.revokedAt ≠ none := by
  intro hvalid
  have hget {k : ℕ} : (w.commit txn session).refreshTokens.get? k =
      (w.refreshTokens.get? k).map (Row.commit txn) := get?_commit
  obtain ⟨row', hrow', hcommitted⟩ := hcommitted
  obtain ⟨row, hrow, rfl⟩ := Option.map_eq_some_iff.mp (hget.symm.trans hrow')
  obtain ⟨held, hheld⟩ | hnot := row.held_or_not txn
  · rw [Row.commit_of_pending hheld] at hcommitted
    obtain rfl : held = token := Option.some.inj hcommitted
    obtain ⟨s, hs, hholds⟩ := hinv.held hrow hheld
    obtain rfl : session = s := Option.eq_some_unique hsession hs
    cases hbefore : row.committed with
    | none =>
      have hissues := (hholds.inserted hbefore).2.2.1
      cases hr : session.request <;> simp [hr, Request.changesPassword] at hrequest <;>
        simp [hr, Request.issuesRefreshToken] at hissues
    | some old => exact (hholds.revoked old hbefore).1 hvalid
  · rw [Row.commit_of_not_held hnot] at hcommitted
    rw [Session.Meets, hphase] at hmeets
    have hfound := hmeets.2 hrequest token.userId huser row
      (Table.mem_of_get? hrow) token hcommitted
      rfl hvalid
    rw [Table.key_of_get? hrow] at hfound
    have hclean := hinv.known hsession (by rw [hphase]; rfl)
    rcases hclean.snapshot id hfound with hleft | hpassed
    · rw [hphase] at hleft
      cases hleft
    · obtain ⟨row₁, old, hrow₁, -, hpassed⟩ := hpassed token.userId huser
      obtain rfl : row = row₁ := Option.eq_some_unique hrow hrow₁
      rcases hpassed with hnever | ⟨held, hpending, -⟩
      · have hnot := hnever token hcommitted
        simp [RefreshToken.revocable, hvalid] at hnot
      · exact hnot _ hpending rfl

theorem World.changesOf_commit_of_ne {userId : ℕ}
    (h : session.request.changesPassword = true → session.user ≠ some userId) :
    (w.commit txn session).changesOf userId = w.changesOf userId := by
  change List.count userId (if session.request.changesPassword then
    w.changes ++ session.user.toList else w.changes) = w.changes.count userId
  split
  · rename_i hrequest
    have hnone : List.count userId session.user.toList = 0 :=
      List.count_eq_zero_of_not_mem fun hmem => h hrequest (Option.mem_toList.mp hmem)
    rw [List.count_append, hnone, Nat.add_zero]
  · rfl

theorem RefreshInv.commit (hinv : RefreshInv w) (hsession : w.requests txn = some session)
    (hphase : session.phase = .running []) (hmeets : session.Meets w txn) :
    RefreshInv (w.commit txn session) := by
  have hunfinished : session.phase.isFinished = false := by
    rw [hphase]
    rfl
  have hget {k : ℕ} : (w.commit txn session).refreshTokens.get? k =
      (w.refreshTokens.get? k).map (Row.commit txn) := get?_commit
  have hknown := hinv.known hsession hunfinished
  have hexchanging {k : ℕ} (hk : k ∈ session.exchange) : w.Exchanging txn k := by
    rcases (hknown.exchange k hk).2 with htodo | hdone
    · rw [hphase] at htodo
      cases htodo
    · exact hdone
  exact {
    sessions := hinv.sessions.update rfl trivial
    held := fun {k row' holder version} hk hpending => by
      obtain ⟨row, hrow, rfl⟩ := Option.map_eq_some_iff.mp (hget.symm.trans hk)
      obtain ⟨hsame, hne⟩ := Row.of_pending_commit hpending
      rw [hsame] at hpending ⊢
      obtain ⟨s, hs, hholds⟩ := hinv.held hrow hpending
      exact ⟨s, (Function.update_of_ne hne ..).trans hs, hholds.mono fun h => h.of_issues rfl⟩
    known := fun {other s} hs hbusy => by
      obtain ⟨rfl, rfl⟩ | ⟨hne, hkept⟩ := of_update_some hs
      · cases hbusy
      · exact (hinv.known hkept hbusy).undisturbed (.commit hinv hsession hphase hne)
    clean := fun {k token} hcommitted hvalid => by
      -- a password change revoked every token of its user
      by_cases hchange : session.request.changesPassword = true ∧ session.user = some token.userId
      · exact absurd hvalid (hinv.revoked_by_change hsession hphase hmeets hchange.1 hcommitted
          hchange.2)
      · rw [World.changesOf_commit_of_ne fun hrequest huser => hchange ⟨hrequest, huser⟩]
        obtain ⟨row', hrow', hcommitted⟩ := hcommitted
        obtain ⟨row, hrow, rfl⟩ := Option.map_eq_some_iff.mp (hget.symm.trans hrow')
        obtain ⟨held, hheld⟩ | hnot := row.held_or_not txn
        · rw [Row.commit_of_pending hheld] at hcommitted
          obtain rfl : held = token := Option.some.inj hcommitted
          obtain ⟨s, hs, hholds⟩ := hinv.held hrow hheld
          obtain rfl : session = s := Option.eq_some_unique hsession hs
          cases hbefore : row.committed with
          -- nobody changed the password since this insert's reads, says the commit condition
          | none =>
            obtain ⟨-, huser, hrequest, hclean⟩ := hholds.inserted hbefore
            rw [Session.Meets, hphase] at hmeets
            rw [← hmeets.1 hrequest held.userId huser]
            exact hclean
          | some old => exact absurd hvalid (hholds.revoked old hbefore).1
        · rw [Row.commit_of_not_held hnot] at hcommitted
          exact hinv.clean ⟨row, hrow, hcommitted⟩ hvalid
    exchanged := fun {k} hk => by
      rcases List.mem_append.mp hk with hk | hk
      · obtain ⟨old, ⟨row, hrow, hcommitted⟩, hrevoked⟩ := hinv.exchanged hk
        have hrow' : (w.commit txn session).refreshTokens.get? k = some (row.commit txn) := by
          rw [hget, hrow, Option.map_some]
        obtain ⟨held, hheld⟩ | hnot := row.held_or_not txn
        · obtain ⟨s, -, hholds⟩ := hinv.held hrow hheld
          refine ⟨held, ⟨_, hrow', ?_⟩, (hholds.revoked old hcommitted).1⟩
          rw [Row.commit_of_pending hheld]
        · exact ⟨old, ⟨_, hrow', by rw [Row.commit_of_not_held hnot, hcommitted]⟩, hrevoked⟩
      · obtain ⟨-, row, held, hrow, hpending, hrevoked⟩ := hexchanging (Option.mem_toList.mp hk)
        refine ⟨held, ⟨row.commit txn, by rw [hget, hrow, Option.map_some], ?_⟩, hrevoked⟩
        rw [Row.commit_of_pending hpending]
    nodup := by
      change (w.exchanges ++ session.exchange.toList).Nodup
      cases hexchange : session.exchange with
      | none => simpa using hinv.nodup
      | some =>
        rw [List.nodup_append]
        refine ⟨hinv.nodup, List.nodup_singleton _, fun a ha b hb => ?_⟩
        rw [List.mem_singleton.mp hb]
        rintro rfl
        exact (hexchanging hexchange).1 ha
    issued := hinv.issued }

theorem RefreshInv.rollback {outcome : Outcome} (hinv : RefreshInv w) :
    RefreshInv (w.rollback txn session outcome) := by
  have hget {k : ℕ} : (w.rollback txn session outcome).refreshTokens.get? k =
      (w.refreshTokens.get? k).map (Row.rollback txn) := get?_rollback
  have hcommitted {k : ℕ} {old : RefreshToken} :
      (w.rollback txn session outcome).CommittedRefresh k old ↔ w.CommittedRefresh k old := by
    unfold World.CommittedRefresh
    rw [hget]
    cases w.refreshTokens.get? k <;> simp
  exact {
    sessions := hinv.sessions.update rfl trivial
    held := fun {k row' holder version} hk hpending => by
      obtain ⟨row, hrow, rfl⟩ := Option.map_eq_some_iff.mp (hget.symm.trans hk)
      obtain ⟨hsame, hne⟩ := Row.of_pending_rollback hpending
      rw [hsame] at hpending ⊢
      obtain ⟨s, hs, hholds⟩ := hinv.held hrow hpending
      exact ⟨s, (Function.update_of_ne hne ..).trans hs, hholds.mono fun h => h.of_issues rfl⟩
    known := fun {other s} hs hbusy => by
      obtain ⟨rfl, rfl⟩ | ⟨hne, hkept⟩ := of_update_some hs
      · cases hbusy
      · exact (hinv.known hkept hbusy).undisturbed (.rollback hne)
    clean := fun h hvalid => hinv.clean (hcommitted.mp h) hvalid
    exchanged := fun hk => by
      obtain ⟨old, h, hrevoked⟩ := hinv.exchanged hk
      exact ⟨old, hcommitted.mpr h, hrevoked⟩
    nodup := hinv.nodup
    issued := hinv.issued }

/-! ### Every step that meets the condition -/

/-- A session that has moved on without learning anything. -/
theorem World.SessionClean.phase {phase : Phase} (h : w.SessionClean txn session)
    (hread : ∀ id token, phase ≠ .tokenRead id token)
    (htodo : ∀ id, .revokeRefreshToken id ∈ session.phase.todo →
    .revokeRefreshToken id ∈ phase.todo)
    (hremaining : ∀ id ∈ session.phase.remaining, id ∈ phase.remaining) :
    w.SessionClean txn { session with phase } where
  read := h.read
  tokenRead id token hphase := absurd hphase (hread id token)
  exchange id hid := ⟨(h.exchange id hid).1, (h.exchange id hid).2.imp_left (htodo id)⟩
  found := h.found
  snapshot id hid := (h.snapshot id hid).imp_left (hremaining id)

/-- A session that neither exchanges a token nor has looked for some. -/
theorem World.SessionClean.idle (hread : ∀ userId ∈ session.user, session.readAt ≤
    w.changesOf userId)
    (htoken : ∀ id token, session.phase = .tokenRead id token → w.Clean session.readAt id)
    (hexchange : session.exchange = none) (hsnapshot : session.snapshot = []) :
    w.SessionClean txn session where
  read := hread
  tokenRead := htoken
  exchange id hid := by
    rw [hexchange] at hid
    cases hid
  found id hid := by
    rw [hsnapshot] at hid
    cases hid
  snapshot id hid := by
    rw [hsnapshot] at hid
    cases hid

/-- What a bulk update finds is committed. -/
theorem RefreshInv.committed_of_revocable {userId : ℕ} (hinv : RefreshInv w)
    (hsession : w.requests txn = some session) (hlast : session.phase ≠ .running [])
    (hget : w.refreshTokens.get? id = some row) (hvisible : row.visible txn = some token)
    (hrevocable : token.revocable userId = true) : row.committed = some token := by
  rcases hinv.committed_of_visible hsession hlast hget hvisible with ⟨-, -, -, hrevoked, -⟩ | h
  · rw [RefreshToken.not_revocable hrevoked] at hrevocable
    cases hrevocable
  · exact h

theorem Session.Moves.clean (hinv : RefreshInv w) (hsession : w.requests txn = some session)
    (h : session.Moves w txn session') : w.SessionClean txn session' := by
  obtain ⟨hunfinished, hlast⟩ := h.was_unfinished
  have hknown := hinv.known hsession hunfinished
  have hok := hinv.sessions txn session hsession
  cases h with
  | seek phase | consumed phase =>
    simp only [Session.Ok, phase] at hok
    exact .idle hknown.read (fun _ _ h => by cases h) hok.2.1 hok.2.2.1
  | begin phase program read =>
    have hstart : session.exchange = none ∧ session.snapshot = [] ∧ session.readAt = 0 := by
      rcases phase with phase | ⟨candidate, phase⟩ <;> simp only [Session.Ok, phase] at hok
      · exact ⟨hok.2.1, hok.2.2.1, hok.2.2.2⟩
      · exact ⟨hok.2.1, hok.2.2.1, hok.2.2.2.1⟩
    refine .idle (fun userId huser => ?_) (fun _ _ h => by cases h) hstart.1 hstart.2.1
    rcases read with hsame | hread
    · rw [hsame, hstart.2.2]
      exact Nat.zero_le _
    · exact (hread userId huser).le
  | @readToken id row token phase found visible unrevoked =>
    -- a visible token that is not revoked is committed: an own insert is never read
    have hcommitted : row.committed = some token := by
      rcases hinv.committed_of_visible hsession hlast found visible with
        ⟨-, -, -, hrevoked, -⟩ | hcommitted
      · exact absurd unrevoked hrevoked
      · exact hcommitted
    simp only [Session.Ok, phase] at hok
    refine .idle (fun userId huser => ?_) (fun id' token' h => ?_) hok.2.1 hok.2.2.1
    · cases huser
      exact le_rfl
    · cases h
      exact hinv.clean ⟨row, found, hcommitted⟩ unrevoked
  | @exchange id token todo phase program =>
    simp only [Session.Ok, phase] at hok
    exact {
      read := hknown.read
      tokenRead := fun _ _ h => by cases h
      exchange := fun id' hid => by
        cases hid
        exact ⟨hknown.tokenRead _ _ phase, .inl program.revokeRefreshToken_mem⟩
      found := hknown.found
      snapshot := fun id' hid => by
        rw [hok.2.2.2] at hid
        cases hid }
  | updateUser phase | findAuthTokens phase =>
    refine hknown.phase (fun _ _ h => by cases h) (fun id hid => ?_) fun id hid => ?_
    · rw [phase] at hid
      exact (List.mem_cons.mp hid).resolve_left fun h => by cases h
    · rw [phase] at hid
      cases hid
  | @findRefreshTokens userId todo phase =>
    exact {
      read := hknown.read
      tokenRead := fun _ _ h => by cases h
      exchange := fun id hid => by
        refine ⟨(hknown.exchange id hid).1, (hknown.exchange id hid).2.imp_left fun htodo => ?_⟩
        rw [phase] at htodo
        exact (List.mem_cons.mp htodo).resolve_left fun h => by cases h
      found := fun id hid => by
        obtain ⟨row, token, hget, hvisible, hrevocable⟩ := mem_matching_iff.mp hid
        exact ⟨token, row, hget,
          hinv.committed_of_revocable hsession hlast hget hvisible hrevocable⟩
      snapshot := fun id hid => .inl hid }
  | @passRefreshToken owner next remaining todo phase passed =>
    simp only [Session.Ok, phase] at hok
    have huser := hok.user_of_revokeRefreshTokens
    exact {
      read := hknown.read
      tokenRead := fun _ _ h => by cases h
      exchange := fun id hid => by
        have hexchange := hknown.exchange id hid
        rw [phase] at hexchange
        exact hexchange
      found := hknown.found
      snapshot := fun id hid => by
        rcases hknown.snapshot id hid with hleft | hpassed
        · rw [phase] at hleft
          by_cases hnext : id = next
          -- the row just passed is already revoked in what the session sees
          · subst hnext
            refine .inr fun userId huser' => ?_
            obtain rfl : owner = userId := Option.eq_some_unique huser huser'
            obtain ⟨token, row, hget, hcommitted⟩ := hknown.found id hid
            exact ⟨row, token, hget, hcommitted, Row.passed_of_visible (passed row hget).2⟩
          · exact .inl ((List.mem_erase_of_ne hnext).mpr hleft)
        · exact .inr hpassed }
  | passAuthToken phase | refreshTokensRevoked phase | authTokensRevoked phase =>
    refine hknown.phase (fun _ _ h => by cases h) (fun id hid => ?_) fun id hid => ?_
    · rw [phase] at hid
      exact hid
    · rw [phase] at hid
      cases hid

theorem RefreshInv.change (hinv : RefreshInv w) (hsession : w.requests txn = some session)
    (hmeets : session.Meets w txn) (h : w.Change hashing txn session w') : RefreshInv w' := by
  have hok := hinv.sessions txn session hsession
  -- one case per statement; a read moves only the session
  cases h with
  | moves moves =>
    exact hinv.goto hsession moves.was_unfinished.2 moves.unfinished (moves.ok hok)
      (moves.clean hinv hsession)
  | @consume id row token rawToken purpose phase presents found free visible presented =>
    simp only [Session.Ok, phase] at hok
    have hnew : Session.Ok { session with
        user := some token.userId
        consumption := some ⟨txn, id, purpose, hashing.hashAuthToken rawToken, session.now⟩
        phase := .consumed token.userId token.sentToEmail } :=
      ⟨rfl, hok.2.1, hok.2.2.1, hok.2.2.2⟩
    refine hinv.goto hsession (by simp [phase]) rfl hnew (.idle (fun userId huser => ?_)
      (fun _ _ h => by cases h) hok.2.1 hok.2.2.1)
    change session.readAt ≤ _
    rw [hok.2.2.2.1]
    exact Nat.zero_le _
  | @revokeAuthToken userId next purpose remaining todo row token phase found free
      visible revocable =>
    have hknown := hinv.known hsession (by rw [phase]; rfl)
    have hnew : Session.Ok { session with
        phase := .revokingAuthTokens userId purpose (remaining.erase next) todo } := by
      simp only [Session.Ok, phase] at hok
      exact hok
    refine hinv.goto hsession (by simp [phase]) rfl hnew
      (hknown.phase (fun _ _ h => by cases h) (fun id hid => ?_) fun id hid => ?_)
    · rw [phase] at hid
      exact hid
    · rw [phase] at hid
      cases hid
  | @insertAuthToken token todo phase clear =>
    have hknown := hinv.known hsession (by rw [phase]; rfl)
    have hruns : session.Runs (.insertAuthToken token :: todo) := by
      simpa only [Session.Ok, phase] using hok
    have hnew : Session.Ok { session with phase := .running todo } := hruns.tail
    refine hinv.goto hsession (by simp [phase]) rfl hnew
      (hknown.phase (fun _ _ h => by cases h) (fun id hid => ?_) fun id hid => ?_)
    · rw [phase] at hid
      exact (List.mem_cons.mp hid).resolve_left fun h => by cases h
    · rw [phase] at hid
      cases hid
  | @revokeRefreshTokens userId next remaining todo row token phase found free visible revocable =>
    have hlast : session.phase ≠ .running [] := by simp [phase]
    have hknown := hinv.known hsession (by rw [phase]; rfl)
    simp only [Session.Ok, phase] at hok
    have huser := hok.user_of_revokeRefreshTokens
    have hnew : Session.Ok { session with
        phase := .revokingRefreshTokens userId (remaining.erase next) todo } := hok
    -- a row it may revoke is a committed one, never its own insert
    have hcommitted := hinv.committed_of_revocable hsession hlast found visible revocable
    have hclean : World.SessionClean ({ w with
        refreshTokens := w.refreshTokens.set
          (row.write txn { token with revokedAt := some session.now }) }.goto txn session
          (.revokingRefreshTokens userId (remaining.erase next) todo)) txn session :=
      hknown.undisturbed (.revoke found free (Option.some_ne_none session.now) rfl rfl rfl rfl)
    refine hinv.revoke hsession hlast rfl hnew found free visible rfl rfl rfl rfl rfl {
      read := hclean.read
      tokenRead := fun _ _ h => by cases h
      exchange := fun id hid => by
        have hexchange := hclean.exchange id hid
        rw [phase] at hexchange
        exact hexchange
      found := hclean.found
      snapshot := fun id hid => ?_ }
    -- the row just revoked leaves the list and is no longer revocable
    rcases hclean.snapshot id hid with hleft | hpassed
    · rw [phase] at hleft
      by_cases hnext : id = next
      · subst hnext
        refine .inr fun userId' huser' => ⟨_, token, get?_set_write_self found, hcommitted, ?_⟩
        exact .inr ⟨_, rfl, RefreshToken.not_revocable (Option.some_ne_none _)⟩
      · exact .inl ((List.mem_erase_of_ne hnext).mpr hleft)
    · exact .inr hpassed
  | @revokeRefreshToken id todo row token phase found free visible =>
    have hlast : session.phase ≠ .running [] := by simp [phase]
    have hknown := hinv.known hsession (by rw [phase]; rfl)
    have hruns : session.Runs (.revokeRefreshToken id :: todo) := by
      simpa only [Session.Ok, phase] using hok
    have hnew : Session.Ok { session with phase := .running todo } := hruns.tail
    have hclean : World.SessionClean ({ w with
        refreshTokens := w.refreshTokens.set
          (row.write txn { token with revokedAt := some session.now }) }.goto txn session
          (.running todo)) txn session :=
      hknown.undisturbed (.revoke found free (Option.some_ne_none session.now) rfl rfl rfl rfl)
    rw [Session.Meets, phase] at hmeets
    refine hinv.revoke hsession hlast rfl hnew found free visible rfl rfl rfl rfl rfl {
      read := hclean.read
      tokenRead := fun _ _ h => by cases h
      exchange := fun id' hid => ⟨(hclean.exchange id' hid).1, .inr ?_⟩
      found := hclean.found
      snapshot := fun id' hid => .inr ((hclean.snapshot id' hid).resolve_left fun hleft => by
        rw [phase] at hleft
        cases hleft) }
    obtain rfl : id = id' := by
      rcases hruns.exchange_of_revokeRefreshToken with hnone | hsome
      · cases hnone.symm.trans hid
      · exact Option.eq_some_unique hsome hid
    have hvalid : token.revokedAt = none := hmeets hid row found token visible
    refine ⟨fun hexchanged => ?_, _, _, get?_set_write_self found, rfl, Option.some_ne_none _⟩
    -- were the token exchanged before, its committed version would be revoked
    obtain ⟨old, ⟨row', hget', hcommitted'⟩, hrevoked⟩ := hinv.exchanged hexchanged
    obtain rfl : row = row' := Option.eq_some_unique found hget'
    rcases hinv.committed_of_visible hsession hlast found visible with
      ⟨-, -, -, hnot, -⟩ | hcommitted
    · exact hnot hvalid
    · obtain rfl : old = token := Option.eq_some_unique hcommitted' hcommitted
      exact hrevoked hvalid
  | @insertRefreshToken token todo phase =>
    have hlast : session.phase ≠ .running [] := by simp [phase]
    have hknown := hinv.known hsession (by rw [phase]; rfl)
    have hruns : session.Runs (.insertRefreshToken token :: todo) := by
      simpa only [Session.Ok, phase] using hok
    obtain ⟨huser, -, hrequest, rfl⟩ := hruns.insertRefreshToken
    have hnew : Session.Ok { session with phase := .running [] } := hruns.tail
    have hclean : World.SessionClean ({ w with
        refreshTokens := ReadCommitted.insert txn token w.refreshTokens
        issues := Function.update w.issues w.refreshTokens.next
          (some ⟨session.exchange, session.readAt, w.changesOf token.userId⟩) }.goto txn session
          (.running [])) txn session :=
      hknown.undisturbed (.insert hinv.issues_next rfl rfl rfl rfl)
    refine hinv.insert hsession hlast hnew rfl huser hrequest rfl rfl rfl rfl rfl
      (.fresh hinv.issues_next rfl (hknown.read _ huser) (fun _ => le_rfl)
        fun parent hparent => (hknown.exchange parent hparent).1)
      (hclean.phase (fun _ _ h => by cases h) (fun id hid => ?_) fun id hid => ?_)
    · rw [phase] at hid
      exact (List.mem_cons.mp hid).resolve_left fun h => by cases h
    · rw [phase] at hid
      cases hid
  | commit phase => exact hinv.commit hsession phase hmeets
  | rollback => exact hinv.rollback

theorem RefreshInv.start (hinv : RefreshInv w) (hnone : w.requests txn = none) (request : Request)
    (now : ℕ) : RefreshInv (w.goto txn (.start request now) .started) where
  sessions other s hs := by
    obtain ⟨-, rfl⟩ | ⟨-, hkept⟩ := of_update_some hs
    · exact ⟨rfl, rfl, rfl, rfl⟩
    · exact hinv.sessions other s hkept
  held hget hpending := by
    obtain ⟨s, hs, hholds⟩ := hinv.held hget hpending
    refine ⟨s, (Function.update_of_ne ?_ ..).trans hs, hholds.mono fun h => h.of_issues rfl⟩
    rintro rfl
    rw [hnone] at hs
    cases hs
  known hs hbusy := by
    obtain ⟨rfl, rfl⟩ | ⟨-, hkept⟩ := of_update_some hs
    · exact .idle (fun _ h => by cases h) (fun _ _ h => by cases h) rfl rfl
    · exact (hinv.known hkept hbusy).undisturbed (.of_eq rfl rfl rfl rfl)
  clean := hinv.clean
  exchanged := hinv.exchanged
  nodup := hinv.nodup
  issued := hinv.issued

theorem RefreshInv.step {a : Action} (hinv : RefreshInv w) (hmeets : Meets w a)
    (h : step hashing w a = some w') : RefreshInv w' := by
  rcases step_cases hinv.sessions h with
    ⟨txn, request, now, hnone, rfl⟩ | ⟨txn, session, hs, hchange, ⟨next, rfl⟩ | ⟨outcome, rfl⟩⟩
  · exact hinv.start hnone request now
  · exact hinv.change hs (hmeets session hs) hchange
  · exact hinv.rollback

theorem World.Starts.refreshInv (h : w.Starts) : RefreshInv w := by
  have hnone {k : ℕ} {row : Row RefreshToken}
    (hget : w.refreshTokens.get? k = some row) : False := by
    rw [h.refreshTokens] at hget
    cases hget
  exact {
    sessions := h.sessionsOk
    held := fun hget => (hnone hget).elim
    known := fun hs => by
      rw [h.requests] at hs
      cases hs
    clean := fun ⟨_, hget, _⟩ => (hnone hget).elim
    exchanged := fun hk => by
      rw [h.exchanges] at hk
      cases hk
    nodup := by
      rw [h.exchanges]
      exact List.nodup_nil
    issued := fun hk => absurd (h.issues _) hk }

end refreshTokens

/-! ### The main result -/

/-- **Refresh tokens.** In a run whose steps all meet the condition, a refresh token is exchanged
once at most, and after a change of the password no token is active that should have ended. -/
theorem refreshTokens {hashing : Hashing} {w₀ w : World} {as : List Action} (hstart : w₀.Starts)
    (halong : Along (step hashing) Meets w₀ as) (hrun : run (step hashing) w₀ as = some w) :
    w.RefreshTokens := by
  have hinv : RefreshInv w :=
    run_invariant_along (fun _ _ _ h hmeets hstep =>
      h.step hmeets hstep) hstart.refreshInv halong hrun
  exact ⟨hinv.nodup, fun id token now n hcommitted hactive hn =>
    (hinv.clean hcommitted hactive.1).not_stale hn⟩

/-- A login, one refresh after another, and a change of the password. -/
def oneTab : List Action :=
  .start 0 (.loginUser "bea" "secret" "r0" 1000) 1 :: List.replicate 3 (.advance 0 0) ++
    .start 1 (.refreshTokens "r0" "r1" 1000) 2 :: List.replicate 5 (.advance 1 0) ++
    .start 2 (.changePassword 0 "secret" "new") 3 :: List.replicate 3 (.advance 2 0) ++
    .advance 2 1 :: List.replicate 6 (.advance 2 0)

theorem refreshTokens_oneTab :
    ∃ w, run (step plainHashing) beaAccount oneTab = some w ∧
      (w.exchanges = [0] ∧ w.changes = [0]) ∧ w.RefreshTokens := by
  obtain ⟨w, hrun, hends⟩ :
      ∃ w, run (step plainHashing) beaAccount oneTab = some w ∧
        (w.exchanges = [0] ∧ w.changes = [0]) :=
    exists_run (by decide +kernel)
  have halong : Along (step plainHashing) Meets beaAccount oneTab := by decide +kernel
  exact ⟨w, hrun, hends, refreshTokens starts_beaAccount halong hrun⟩

/-- Two refreshes read the same token, and a login reads the user before a change of the password
and inserts its token after it. -/
def twoTabs : List Action :=
  .start 0 (.loginUser "bea" "secret" "r0" 1000) 1 :: List.replicate 3 (.advance 0 0) ++
    [.start 1 (.refreshTokens "r0" "r1" 1000) 2, .start 2 (.refreshTokens "r0" "r2" 1000) 2,
      .advance 1 0, .advance 2 0] ++
    List.replicate 4 (.advance 1 0) ++ List.replicate 4 (.advance 2 0) ++
    [.start 3 (.loginUser "bea" "secret" "r3" 1000) 3, .advance 3 0,
      .start 4 (.changePassword 0 "secret" "new") 3] ++
    List.replicate 3 (.advance 4 0) ++ [.advance 4 1, .advance 4 2] ++
    List.replicate 6 (.advance 4 0) ++ List.replicate 2 (.advance 3 0)

/-- One token is exchanged twice, and the token of the login is active although its password is no
longer the user's. -/
theorem refreshTokens_twoTabs :
    ∃ w, run (step plainHashing) beaAccount twoTabs = some w ∧ ¬w.exchanges.Nodup ∧
      (∃ id token, w.CommittedRefresh id token ∧ token.Active 4 ∧ 0 < w.changesOf token.userId ∧
        w.Stale 0 id) ∧
      ¬w.RefreshTokens := by
  obtain ⟨w, hrun, hexchanges, hchanges, hissue, hrow⟩ :
      ∃ w, run (step plainHashing) beaAccount twoTabs = some w ∧ w.exchanges = [0, 0] ∧
        w.changes = [0] ∧ w.issues 3 = some ⟨none, 0, 1⟩ ∧
        w.refreshTokens.get? 3 = some ⟨3, some ⟨0, "r3", 1000003, none⟩, none⟩ :=
    exists_run (by decide +kernel)
  have htwice : ¬w.exchanges.Nodup := by
    rw [hexchanges]
    decide
  refine ⟨w, hrun, htwice, ⟨3, ⟨0, "r3", 1000003, none⟩, ⟨_, hrow, rfl⟩, by decide, ?_, ?_⟩,
    fun h => htwice h.once⟩
  · rw [World.changesOf, hchanges]
    decide
  · exact .inl ⟨_, hissue, rfl, le_rfl⟩

end IChat.Auth
