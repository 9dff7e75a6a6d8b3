import IChat.Auth.RequestSteps

/-!
# Email tokens

The tokens of `auth_tokens` under any interleaving of the requests about credentials.

* `TokensInv` is kept by every step. A row is only held by a request that has consumed it, revoked
  it or inserted it, and a committed token that is held is about to become inactive; this is why
  nothing that is inactive becomes active again (`Expired`).
* `uq_auth_tokens_active_purpose` is the unique index `AuthToken.activeKey`.
* A request that resets or changes a password, or deletes an account, revokes what is committed
  when its bulk update starts: `Tracked` follows one such token until the request is over.

`emailTokens` collects what holds in every reachable state.
-/

namespace IChat.Auth

open ReadCommitted StepSystem

/-- The version of the token that is committed. -/
def World.Committed (w : World) (id : ℕ) (token : AuthToken) : Prop :=
  ∃ row, w.authTokens.get? id = some row ∧ row.committed = some token

/-- The consumption was one of a valid token, for its own purpose, by a request that succeeded. -/
structure World.Consumed (w : World) (e : Consumption) : Prop where
  token : ∃ token : AuthToken, w.Committed e.token { token with usedAt := some e.moment } ∧
    token.Presented e.tokenHash e.purpose e.moment
  request : ∃ session, w.requests e.request = some session ∧ session.phase = .finished .succeeded

/-- The request holds no token. -/
def Phase.isIdle : Phase → Bool
  | .started | .consuming _ | .finished _ => true
  | _ => false

/-- What a request makes of a token that it holds: one that is committed has been consumed or
revoked, and one that it has inserted has not been consumed. -/
def Session.Holds (session : Session) (id : ℕ) (committed : Option AuthToken)
    (version : AuthToken) : Prop :=
  match committed with
  | none => version.usedAt = none
  | some token =>
    token.Active ∧
      ((∃ moment, version = { token with revokedAt := some moment }) ∨
        ∃ e, session.consumption = some e ∧ e.token = id ∧
          version = { token with usedAt := some e.moment })

/-- What a request knows of the token it has consumed. -/
def World.Consuming (w : World) (txn : ℕ) (e : Consumption) : Prop :=
  e.request = txn ∧ ∃ row token, w.authTokens.get? e.token = some row ∧
    row.committed = some token ∧ row.pending = some (txn, { token with usedAt := some e.moment }) ∧
    token.Presented e.tokenHash e.purpose e.moment

structure TokensInv (w : World) : Prop where
  sessions : w.SessionsOk
  held : ∀ {id row txn version}, w.authTokens.get? id = some row →
    row.pending = some (txn, version) → ∃ session, w.requests txn = some session ∧
      session.phase.isIdle = false ∧ session.Holds id row.committed version
  consuming : ∀ {txn session e}, w.requests txn = some session →
    session.phase.isFinished = false → session.consumption = some e → w.Consuming txn e
  unique : Unique AuthToken.activeKey w.authTokens
  consumed : ∀ e ∈ w.consumptions, w.Consumed e
  used : ∀ {id token}, w.Committed id token → token.usedAt ≠ none →
    ∃ e ∈ w.consumptions, e.token = id
  nodup : (w.consumptions.map (·.token)).Nodup

section tokens

variable {hashing : Hashing} {w w' : World} {txn id : ℕ} {session session' : Session}
  {row : Row AuthToken} {token version : AuthToken}

theorem AuthToken.activeKey_eq_none (h : ¬token.Active) : token.activeKey = none := if_neg h

theorem AuthToken.not_active_of_used {moment : ℕ} :
    ¬({ token with usedAt := some moment } : AuthToken).Active := fun h => by cases h.1

theorem AuthToken.not_active_of_revoked {moment : ℕ} :
    ¬({ token with revokedAt := some moment } : AuthToken).Active := fun h => by cases h.2

theorem Session.Holds.not_active (h : session.Holds id (some token) version) : ¬version.Active := by
  obtain ⟨-, ⟨moment, rfl⟩ | ⟨e, -, -, rfl⟩⟩ := h
  · exact AuthToken.not_active_of_revoked
  · exact AuthToken.not_active_of_used

/-- A session that has consumed the same holds the same. -/
theorem Session.Holds.congr {committed : Option AuthToken} (h : session.Holds id committed version)
    (heq : session'.consumption = session.consumption) : session'.Holds id committed version := by
  unfold Session.Holds at h ⊢
  rw [heq]
  exact h

theorem Session.Holds.same_owner (h : session.Holds id (some token) version) :
    version.userId = token.userId ∧ version.purpose = token.purpose := by
  obtain ⟨-, ⟨moment, rfl⟩ | ⟨e, -, -, rfl⟩⟩ := h
  · exact ⟨rfl, rfl⟩
  · exact ⟨rfl, rfl⟩

/-- An idle request sees the committed version of every token. -/
theorem TokensInv.visible (hinv : TokensInv w) (hsession : w.requests txn = some session)
    (hidle : session.phase.isIdle = true) (hget : w.authTokens.get? id = some row) :
    row.visible txn = row.committed := by
  refine Row.visible_of_not_held fun p hp hholder => ?_
  obtain ⟨holder, version⟩ := p
  obtain rfl : holder = txn := hholder
  obtain ⟨session', hsession', hnot, -⟩ := hinv.held hget hp
  obtain rfl : session = session' := Option.eq_some_unique hsession hsession'
  rw [hidle] at hnot
  cases hnot

/-- A committed token that somebody holds is active. -/
theorem TokensInv.active_of_pending (hinv : TokensInv w) (hget : w.authTokens.get? id = some row)
    (hcommitted : row.committed = some token) {p : ℕ × AuthToken} (hp : row.pending = some p) :
    token.Active := by
  obtain ⟨holder, version⟩ := p
  obtain ⟨session', -, -, hholds⟩ := hinv.held hget hp
  rw [hcommitted] at hholds
  exact hholds.1

/-- What a request sees of a row it can write is active only if it holds nothing of it, or has
inserted it. -/
theorem TokensInv.of_visible_active (hinv : TokensInv w) (hget : w.authTokens.get? id = some row)
    (hfree : row.Free txn) (hvisible : row.visible txn = some version) (hactive : version.Active) :
    row.pending = none ∧ row.committed = some version ∨
      row.committed = none ∧ version.usedAt = none := by
  rcases Row.pending_of_visible hvisible hfree with hpending | hcommitted
  · obtain ⟨session', -, -, hholds⟩ := hinv.held hget hpending
    cases hcommitted : row.committed with
    | none => exact .inr ⟨rfl, hactive.1⟩
    | some =>
      rw [hcommitted] at hholds
      exact absurd hactive hholds.not_active
  · exact .inl hcommitted

theorem World.Committed.unique {token' : AuthToken} (h : w.Committed id token)
    (h' : w.Committed id token') : token = token' := by
  obtain ⟨row, hget, hcommitted⟩ := h
  obtain ⟨row', hget', hcommitted'⟩ := h'
  obtain rfl : row = row' := Option.eq_some_unique hget hget'
  exact Option.eq_some_unique hcommitted hcommitted'

/-- A request that has finished is not the one that takes a step. -/
theorem World.exists_finished {other : ℕ} {s : Session} {outcome : Outcome}
    (hsession : w.requests txn = some session) (hunfinished : session.phase.isFinished = false)
    (hrequests : w'.requests = Function.update w.requests txn (some session'))
    (hs : w.requests other = some s) (hdone : s.phase = .finished outcome) :
    ∃ s, w'.requests other = some s ∧ s.phase = .finished outcome :=
  World.exists_request hsession hrequests
    (fun h => by rw [h] at hunfinished; cases hunfinished) hs hdone

/-! ### Steps that write no token -/

/-- The same tokens, with a session that has moved on. -/
theorem TokensInv.of_requests (hinv : TokensInv w) (hsession : w.requests txn = some session)
    (hunfinished : session.phase.isFinished = false) (hok : session'.Ok)
    (hidle : session'.phase.isIdle = true → session.phase.isIdle = true)
    (hconsumption : session'.consumption = session.consumption)
    (htokens : w'.authTokens = w.authTokens) (hconsumptions : w'.consumptions = w.consumptions)
    (hrequests : w'.requests = Function.update w.requests txn (some session')) : TokensInv w' where
  sessions := hinv.sessions.update hrequests hok
  held hget hpending := by
    rw [htokens] at hget
    obtain ⟨old, hold, hholds⟩ := hinv.held hget hpending
    refine World.exists_request hsession hrequests (fun h =>
      ⟨?_, h.2.congr hconsumption⟩) hold hholds
    exact Bool.eq_false_iff.mpr fun hnew => by simp [hidle hnew] at h
  consuming hnew hbusy he := by
    rw [hrequests] at hnew
    have hsame : ∀ {t e}, w.Consuming t e → w'.Consuming t e := by
      unfold World.Consuming
      rw [htokens]
      exact id
    obtain ⟨rfl, rfl⟩ | ⟨-, hkept⟩ := of_update_some hnew
    · exact hsame (hinv.consuming hsession hunfinished (hconsumption ▸ he))
    · exact hsame (hinv.consuming hkept hbusy he)
  unique := htokens ▸ hinv.unique
  consumed e he := by
    rw [hconsumptions] at he
    obtain ⟨htoken, old, hold, hdone⟩ := hinv.consumed e he
    refine ⟨?_, World.exists_finished hsession hunfinished hrequests hold hdone⟩
    unfold World.Committed at htoken ⊢
    rwa [htokens]
  used hcommitted hused := by
    rw [hconsumptions]
    unfold World.Committed at hcommitted
    rw [htokens] at hcommitted
    exact hinv.used hcommitted hused
  nodup := hconsumptions ▸ hinv.nodup

/-! ### Steps that write a token -/

theorem World.committed_write_iff {new : AuthToken} (hget : w.authTokens.get? id = some row)
    (htokens : w'.authTokens = w.authTokens.set (row.write txn new)) {k : ℕ} {token : AuthToken} :
    w'.Committed k token ↔ w.Committed k token := by
  unfold World.Committed
  rw [htokens]
  exact ReadCommitted.committed_write_iff hget

/-- A request makes a token inactive that it sees active. -/
theorem TokensInv.write {new : AuthToken} (hinv : TokensInv w)
    (hsession : w.requests txn = some session) (hunfinished : session.phase.isFinished = false)
    (hok : session'.Ok) (hbusy : session'.phase.isIdle = false)
    (hget : w.authTokens.get? id = some row) (hfree : row.Free txn)
    (hvisible : row.visible txn = some token) (hactive : token.Active) (hnew : ¬new.Active)
    (hholds : session'.Holds id row.committed new)
    (hkept : session.consumption = none ∧ session.phase.isIdle = true ∨
      session'.consumption = session.consumption)
    (hconsuming : ∀ e, session'.consumption = some e →
      session.consumption = some e ∨ w'.Consuming txn e)
    (htokens : w'.authTokens = w.authTokens.set (row.write txn new))
    (hconsumptions : w'.consumptions = w.consumptions)
    (hrequests : w'.requests = Function.update w.requests txn (some session')) : TokensInv w' where
  sessions := hinv.sessions.update hrequests hok
  held hk hpending := by
    rename_i k row' holder version
    rw [htokens, get?_set_write hget] at hk
    by_cases hkid : k = id
    · subst hkid
      rw [if_pos rfl] at hk
      cases hk
      cases hpending
      exact ⟨session', hrequests ▸ Function.update_self .., hbusy, hholds⟩
    · rw [if_neg hkid] at hk
      obtain ⟨old, hold, hholds'⟩ := hinv.held hk hpending
      refine World.exists_request hsession hrequests (fun h => ⟨hbusy, ?_⟩) hold hholds'
      rcases hkept with ⟨-, hidle⟩ | hsame
      · rw [hidle] at h
        cases h.1
      · exact h.2.congr hsame
  consuming hs hbusy' he := by
    rename_i t s e
    -- the token of another consumption is held, so it is not the one that is written
    have hother {t : ℕ} {e : Consumption} (h : w.Consuming t e) : w'.Consuming t e := by
      obtain ⟨hrequest, row', token', hget', hcommitted', hpending', hpresented⟩ := h
      refine ⟨hrequest, row', token', ?_, hcommitted', hpending', hpresented⟩
      rw [htokens, get?_set_write_of_ne hget, hget']
      rintro rfl
      obtain rfl : row = row' := Option.eq_some_unique hget hget'
      obtain rfl : t = txn := hfree _ hpending'
      obtain rfl := Option.eq_some_unique (Row.visible_of_pending hpending') hvisible
      exact AuthToken.not_active_of_used hactive
    rw [hrequests] at hs
    obtain ⟨rfl, rfl⟩ | ⟨-, hold⟩ := of_update_some hs
    · rcases hconsuming e he with hold | hdone
      · exact hother (hinv.consuming hsession hunfinished hold)
      · exact hdone
    · exact hother (hinv.consuming hold hbusy' he)
  unique := by
    rw [htokens]
    exact hinv.unique.write hget hfree hvisible (.inl (AuthToken.activeKey_eq_none hnew))
  consumed e he := by
    rw [hconsumptions] at he
    obtain ⟨⟨token', hcommitted, hpresented⟩, old, hold, hdone⟩ := hinv.consumed e he
    exact ⟨⟨token', (World.committed_write_iff hget htokens).mpr hcommitted, hpresented⟩,
      World.exists_finished hsession hunfinished hrequests hold hdone⟩
  used hcommitted hused := by
    rw [hconsumptions]
    exact hinv.used ((World.committed_write_iff hget htokens).mp hcommitted) hused
  nodup := hconsumptions ▸ hinv.nodup

/-- A request inserts a token that the index lets in. -/
theorem TokensInv.insert (hinv : TokensInv w) (hsession : w.requests txn = some session)
    (hunfinished : session.phase.isFinished = false) (hok : session'.Ok)
    (hbusy : session'.phase.isIdle = false)
    (hconsumption : session'.consumption = session.consumption) (hactive : token.Active)
    (hclear : insertion AuthToken.activeKey txn token w.authTokens = .clear)
    (htokens : w'.authTokens = ReadCommitted.insert txn token w.authTokens)
    (hconsumptions : w'.consumptions = w.consumptions)
    (hrequests : w'.requests = Function.update w.requests txn (some session')) : TokensInv w' := by
  have hold {k : ℕ} {row : Row AuthToken} (h : w.authTokens.get? k = some row) :
      w'.authTokens.get? k = some row := by
    rw [htokens, get?_insert_of_some h]
  have hcommitted {k : ℕ} {old : AuthToken} (h : w'.Committed k old) : w.Committed k old := by
    obtain ⟨row, hrow, h⟩ := h
    rcases of_get?_insert (htokens ▸ hrow) with ⟨-, rfl⟩ | hrow
    · cases h
    · exact ⟨row, hrow, h⟩
  have hconsuming {t : ℕ} {e : Consumption} (h : w.Consuming t e) : w'.Consuming t e := by
    obtain ⟨hrequest, row, old, hrow, h⟩ := h
    exact ⟨hrequest, row, old, hold hrow, h⟩
  exact {
    sessions := hinv.sessions.update hrequests hok
    held := fun {k row holder version} hk hpending => by
      rcases of_get?_insert (htokens ▸ hk) with ⟨-, rfl⟩ | hk
      · cases hpending
        exact ⟨session', hrequests ▸ Function.update_self .., hbusy, hactive.1⟩
      · obtain ⟨other, hother, hholds⟩ := hinv.held hk hpending
        exact World.exists_request hsession hrequests
          (fun h => ⟨hbusy, h.2.congr hconsumption⟩) hother hholds
    consuming := fun hs hbusy' he => by
      rw [hrequests] at hs
      obtain ⟨rfl, rfl⟩ | ⟨-, hkept⟩ := of_update_some hs
      · exact hconsuming (hinv.consuming hsession hunfinished (hconsumption ▸ he))
      · exact hconsuming (hinv.consuming hkept hbusy' he)
    unique := htokens ▸ hinv.unique.insert hclear
    consumed := fun e he => by
      rw [hconsumptions] at he
      obtain ⟨⟨old, ⟨row, hrow, hcommitted⟩, hpresented⟩, other, hother, hdone⟩ :=
        hinv.consumed e he
      exact ⟨⟨old, ⟨row, hold hrow, hcommitted⟩, hpresented⟩,
        World.exists_finished hsession hunfinished hrequests hother hdone⟩
    used := fun h hused => hconsumptions ▸ hinv.used (hcommitted h) hused
    nodup := hconsumptions ▸ hinv.nodup }

/-! ### The end of a request -/

/-- What is committed and inactive is held by nobody. -/
theorem TokensInv.expired (hinv : TokensInv w) (hget : w.authTokens.get? id = some row)
    (hcommitted : row.committed = some token) (hexpired : ¬token.Active) : row.pending = none := by
  cases hpending : row.pending with
  | none => rfl
  | some => exact absurd (hinv.active_of_pending hget hcommitted hpending) hexpired

theorem TokensInv.commit (hinv : TokensInv w) (hsession : w.requests txn = some session)
    (hphase : session.phase = .running []) : TokensInv (w.commit txn session) := by
  have hunfinished : session.phase.isFinished = false := by
    rw [hphase]
    rfl
  have hget {k : ℕ} : (w.commit txn session).authTokens.get? k =
      (w.authTokens.get? k).map (Row.commit txn) := get?_commit
  have hrequests : (w.commit txn session).requests =
      Function.update w.requests txn (some { session with phase := .finished .succeeded }) := rfl
  -- a token that another request has consumed, or that is inactive, is as before
  have hconsuming {t : ℕ} {e : Consumption} (hne : t ≠ txn) (h : w.Consuming t e) :
      (w.commit txn session).Consuming t e := by
    obtain ⟨hrequest, row, old, hrow, hcommitted, hpending, hpresented⟩ := h
    exact ⟨hrequest, row, old,
      by rw [hget, hrow, Option.map_some, Row.commit_of_held hne hpending], hcommitted, hpending,
      hpresented⟩
  have hexpired {k : ℕ} {old : AuthToken} (h : w.Committed k old) (hold : ¬old.Active) :
      (w.commit txn session).Committed k old := by
    obtain ⟨row, hrow, hcommitted⟩ := h
    have hsame : row.commit txn = row := Row.commit_of_not_held fun p hp => by
      rw [hinv.expired hrow hcommitted hold] at hp
      cases hp
    exact ⟨row, by rw [hget, hrow, Option.map_some, hsame], hcommitted⟩
  have hmine {e : Consumption} (he : e ∈ session.consumption) : w.Consuming txn e :=
    hinv.consuming hsession hunfinished he
  exact {
    sessions := hinv.sessions.update hrequests trivial
    held := fun {k row' holder version} hk hpending => by
      obtain ⟨row, hrow, rfl⟩ := Option.map_eq_some_iff.mp (hget.symm.trans hk)
      obtain ⟨hsame, hne⟩ := Row.of_pending_commit hpending
      rw [hsame] at hpending ⊢
      obtain ⟨other, hother, hbusy, hholds⟩ := hinv.held hrow hpending
      exact ⟨other, (Function.update_of_ne hne ..).trans hother, hbusy, hholds⟩
    consuming := fun hs hbusy he => by
      rw [hrequests] at hs
      obtain ⟨-, rfl⟩ | ⟨hne, hkept⟩ := of_update_some hs
      · cases hbusy
      · exact hconsuming hne (hinv.consuming hkept hbusy he)
    unique := hinv.unique.commit
    consumed := fun e he => by
      rcases List.mem_append.mp he with he | he
      · obtain ⟨⟨old, hcommitted, hpresented⟩, other, hother, hdone⟩ := hinv.consumed e he
        exact ⟨⟨old, hexpired hcommitted AuthToken.not_active_of_used, hpresented⟩,
          World.exists_finished hsession hunfinished hrequests hother hdone⟩
      · obtain ⟨rfl, row, old, hrow, -, hpending, hpresented⟩ := hmine (Option.mem_toList.mp he)
        refine ⟨⟨old, ⟨row.commit e.request, ?_, ?_⟩, hpresented⟩, _, Function.update_self .., rfl⟩
        · rw [hget, hrow, Option.map_some]
        · rw [Row.commit_of_pending hpending]
    used := fun {k old} h hused => by
      obtain ⟨row', hrow', hcommitted⟩ := h
      obtain ⟨row, hrow, rfl⟩ := Option.map_eq_some_iff.mp (hget.symm.trans hrow')
      obtain ⟨held, hheld⟩ | hnot := row.held_or_not txn
      · rw [Row.commit_of_pending hheld] at hcommitted
        obtain rfl : held = old := Option.some.inj hcommitted
        obtain ⟨other, hother, -, hholds⟩ := hinv.held hrow hheld
        obtain rfl : session = other := Option.eq_some_unique hsession hother
        cases hbefore : row.committed with
        | none =>
          rw [hbefore] at hholds
          exact absurd hholds hused
        | some =>
          rw [hbefore] at hholds
          obtain ⟨hactive, ⟨moment, rfl⟩ | ⟨e, he, hid, rfl⟩⟩ := hholds
          · exact absurd hactive.1 hused
          · exact ⟨e, List.mem_append_right _ (Option.mem_toList.mpr he), hid⟩
      · rw [Row.commit_of_not_held hnot] at hcommitted
        obtain ⟨e, he, hid⟩ := hinv.used ⟨row, hrow, hcommitted⟩ hused
        exact ⟨e, List.mem_append_left _ he, hid⟩
    nodup := by
      have hfresh : ∀ e ∈ session.consumption, ∀ e' ∈ w.consumptions, e'.token ≠ e.token := by
        intro e he e' he' htoken
        obtain ⟨-, row, old, hrow, hcommitted, -, hpresented⟩ := hmine he
        obtain ⟨old', hcommitted', -⟩ := (hinv.consumed e' he').token
        rw [htoken] at hcommitted'
        have hsame := World.Committed.unique ⟨row, hrow, hcommitted⟩ hcommitted'
        rw [hsame] at hpresented
        exact AuthToken.not_active_of_used hpresented.2.2.1
      change ((w.consumptions ++ session.consumption.toList).map (·.token)).Nodup
      cases hconsumption : session.consumption with
      | none => simpa using hinv.nodup
      | some e =>
        rw [List.map_append, List.nodup_append]
        refine ⟨hinv.nodup, List.nodup_singleton _, fun a ha b hb => ?_⟩
        obtain ⟨e', he', rfl⟩ := List.mem_map.mp ha
        rw [List.mem_singleton.mp hb]
        exact hfresh e hconsumption e' he' }

theorem TokensInv.rollback (hinv : TokensInv w) (hsession : w.requests txn = some session)
    (hunfinished : session.phase.isFinished = false) (outcome : Outcome) :
    TokensInv (w.rollback txn session outcome) := by
  have hget {k : ℕ} : (w.rollback txn session outcome).authTokens.get? k =
      (w.authTokens.get? k).map (Row.rollback txn) := get?_rollback
  have hrequests : (w.rollback txn session outcome).requests =
      Function.update w.requests txn (some { session with phase := .finished outcome }) := rfl
  have hcommitted {k : ℕ} {old : AuthToken} :
      (w.rollback txn session outcome).Committed k old ↔ w.Committed k old := by
    unfold World.Committed
    rw [hget]
    cases w.authTokens.get? k <;> simp
  exact {
    sessions := hinv.sessions.update hrequests trivial
    held := fun {k row' holder version} hk hpending => by
      obtain ⟨row, hrow, rfl⟩ := Option.map_eq_some_iff.mp (hget.symm.trans hk)
      obtain ⟨hsame, hne⟩ := Row.of_pending_rollback hpending
      rw [hsame] at hpending ⊢
      obtain ⟨other, hother, hbusy, hholds⟩ := hinv.held hrow hpending
      exact ⟨other, (Function.update_of_ne hne ..).trans hother, hbusy, hholds⟩
    consuming := fun hs hbusy he => by
      rw [hrequests] at hs
      obtain ⟨-, rfl⟩ | ⟨hne, hkept⟩ := of_update_some hs
      · cases hbusy
      · obtain ⟨hrequest, row, old, hrow, hcommitted, hpending, hpresented⟩ :=
          hinv.consuming hkept hbusy he
        exact ⟨hrequest, row, old,
          by rw [hget, hrow, Option.map_some, Row.rollback_of_held hne hpending], hcommitted,
          hpending, hpresented⟩
    unique := hinv.unique.rollback
    consumed := fun e he => by
      obtain ⟨⟨old, h, hpresented⟩, other, hother, hdone⟩ := hinv.consumed e he
      exact ⟨⟨old, hcommitted.mpr h, hpresented⟩,
        World.exists_finished hsession hunfinished hrequests hother hdone⟩
    used := fun h hused => hinv.used (hcommitted.mp h) hused
    nodup := hinv.nodup }

/-! ### Every step -/

theorem Session.Moves.idle (h : session.Moves w txn session')
    (hidle : session'.phase.isIdle = true) :
    session.phase.isIdle = true := by
  cases h with
  | seek phase =>
    rw [phase]
    rfl
  | _ => cases hidle

theorem TokensInv.change (hinv : TokensInv w) (hsession : w.requests txn = some session)
    (h : w.Change hashing txn session w') : TokensInv w' := by
  have hok := hinv.sessions txn session hsession
  cases h with
  | moves moves =>
    exact hinv.of_requests hsession moves.was_unfinished.1 (moves.ok hok) moves.idle
      moves.consumption_eq rfl rfl rfl
  | @consume id row token rawToken purpose phase presents found free visible presented =>
    have hidle : session.phase.isIdle = true := by
      rw [phase]
      rfl
    have hcommitted : row.committed = some token := by
      rw [← hinv.visible hsession hidle found, visible]
    have hnone : session.consumption = none := by
      simp only [Session.Ok, phase] at hok
      exact hok.1
    have hnew : Session.Ok { session with
        user := some token.userId
        consumption := some ⟨txn, id, purpose, hashing.hashAuthToken rawToken, session.now⟩
        phase := .consumed token.userId token.sentToEmail } := by
      simp only [Session.Ok, phase] at hok
      exact ⟨rfl, hok.2.1, hok.2.2.1, hok.2.2.2⟩
    refine hinv.write hsession (by rw [phase]; rfl) hnew rfl found free visible presented.2.2.1
      AuthToken.not_active_of_used ?_ (.inl ⟨hnone, hidle⟩) (fun e he => .inr ?_) rfl rfl rfl
    · rw [hcommitted]
      exact ⟨presented.2.2.1, .inr ⟨_, rfl, rfl, rfl⟩⟩
    · cases he
      exact ⟨rfl, _, token, get?_set_write_self found, hcommitted, rfl, presented⟩
  | @revokeAuthToken userId next purpose remaining todo row token phase found free
      visible revocable =>
    have hactive : token.Active := by
      simp only [AuthToken.revocable, decide_eq_true_eq] at revocable
      exact revocable.2.2
    have hnew : Session.Ok { session with
        phase := .revokingAuthTokens userId purpose (remaining.erase next) todo } := by
      simp only [Session.Ok, phase] at hok
      exact hok
    refine hinv.write hsession (by rw [phase]; rfl) hnew rfl found free visible hactive
      AuthToken.not_active_of_revoked ?_ (.inr rfl) (fun e he => .inl he) rfl rfl rfl
    -- an active token that it sees is committed, or its own insert
    rcases hinv.of_visible_active found free visible hactive with ⟨-, hcommitted⟩ |
      ⟨hcommitted, hunused⟩
    · rw [hcommitted]
      exact ⟨hactive, .inl ⟨_, rfl⟩⟩
    · rw [hcommitted]
      exact hunused
  | @insertAuthToken token todo phase clear =>
    have hruns : session.Runs (.insertAuthToken token :: todo) := by
      simpa only [Session.Ok, phase] using hok
    have hnew : Session.Ok { session with phase := .running todo } := hruns.tail
    exact hinv.insert hsession (by rw [phase]; rfl) hnew rfl rfl
      hruns.active_of_insertAuthToken clear rfl rfl rfl
  | @revokeRefreshTokens userId next remaining todo row token phase found free visible revocable =>
    have hnew : Session.Ok { session with
        phase := .revokingRefreshTokens userId (remaining.erase next) todo } := by
      simp only [Session.Ok, phase] at hok
      exact hok
    exact hinv.of_requests hsession (by rw [phase]; rfl) hnew (fun h => by cases h) rfl rfl rfl rfl
  | @revokeRefreshToken id todo row token phase found free visible =>
    have hruns : session.Runs (.revokeRefreshToken id :: todo) := by
      simpa only [Session.Ok, phase] using hok
    have hnew : Session.Ok { session with phase := .running todo } := hruns.tail
    exact hinv.of_requests hsession (by rw [phase]; rfl) hnew (fun h => by cases h) rfl rfl rfl rfl
  | @insertRefreshToken token todo phase =>
    have hruns : session.Runs (.insertRefreshToken token :: todo) := by
      simpa only [Session.Ok, phase] using hok
    have hnew : Session.Ok { session with phase := .running todo } := hruns.tail
    exact hinv.of_requests hsession (by rw [phase]; rfl) hnew (fun h => by cases h) rfl rfl rfl rfl
  | commit phase => exact hinv.commit hsession phase
  | rollback unfinished => exact hinv.rollback hsession unfinished _

theorem TokensInv.start (hinv : TokensInv w) (hnone : w.requests txn = none) (request : Request)
    (now : ℕ) : TokensInv (w.goto txn (.start request now) .started) := by
  have hne {t : ℕ} {s : Session} (h : w.requests t = some s) : t ≠ txn := by
    rintro rfl
    rw [hnone] at h
    cases h
  exact {
    sessions := hinv.sessions.update rfl ⟨rfl, rfl, rfl, rfl⟩
    held := fun hget hpending => by
      obtain ⟨s, hs, hbusy, hholds⟩ := hinv.held hget hpending
      exact ⟨s, (Function.update_of_ne (hne hs) ..).trans hs, hbusy, hholds⟩
    consuming := fun hs hbusy he => by
      obtain ⟨-, rfl⟩ | ⟨-, hkept⟩ := of_update_some hs
      · cases he
      · exact hinv.consuming hkept hbusy he
    unique := hinv.unique
    consumed := fun e he => by
      obtain ⟨htoken, s, hs, hdone⟩ := hinv.consumed e he
      exact ⟨htoken, s, (Function.update_of_ne (hne hs) ..).trans hs, hdone⟩
    used := hinv.used
    nodup := hinv.nodup }

theorem TokensInv.step {a : Action} (hinv : TokensInv w) (h : step hashing w a = some w') :
    TokensInv w' := by
  rcases step_cases hinv.sessions h with ⟨txn, request, now, hnone, rfl⟩ |
    ⟨txn, session, hs, hchange, -⟩
  · exact hinv.start hnone request now
  · exact hinv.change hs hchange

theorem World.Starts.tokensInv (h : w.Starts) : TokensInv w := by
  have hnone {k : ℕ} {row : Row AuthToken} (hget : w.authTokens.get? k = some row) : False := by
    rw [h.authTokens] at hget
    cases hget
  exact {
    sessions := h.sessionsOk
    held := fun hget => (hnone hget).elim
    consuming := fun hs => by
      rw [h.requests] at hs
      cases hs
    unique := h.authTokens ▸ unique_empty
    consumed := fun e he => by
      rw [h.consumptions] at he
      cases he
    used := fun ⟨_, hget, _⟩ => (hnone hget).elim
    nodup := by
      rw [h.consumptions]
      exact List.nodup_nil }

/-! ### What a step does to a row -/

/-- A step of a request leaves a row, makes its newest version inactive, or ends. -/
theorem World.Change.row_cases (h : w.Change hashing txn session w')
    (hget : w.authTokens.get? id = some row) :
    ∃ row', w'.authTokens.get? id = some row' ∧
      (row' = row ∨ (∃ new, row.Free txn ∧ ¬new.Active ∧ row' = row.write txn new) ∨
        row' = row.commit txn ∨ row' = row.rollback txn) := by
  have hwrite {k : ℕ} {old : Row AuthToken} {new : AuthToken}
      (hfound : w.authTokens.get? k = some old) (hfree : old.Free txn) (hnew : ¬new.Active) :
      ∃ row', Table.get? (w.authTokens.set (old.write txn new)) id = some row' ∧
        (row' = row ∨ (∃ new, row.Free txn ∧ ¬new.Active ∧ row' = row.write txn new) ∨
          row' = row.commit txn ∨ row' = row.rollback txn) := by
    by_cases hid : id = k
    · subst hid
      obtain rfl : row = old := Option.eq_some_unique hget hfound
      exact ⟨_, get?_set_write_self hget, .inr (.inl ⟨new, hfree, hnew, rfl⟩)⟩
    · exact ⟨row, (get?_set_write_of_ne hfound hid).trans hget, .inl rfl⟩
  cases h with
  | consume phase presents found free =>
    exact hwrite found free AuthToken.not_active_of_used
  | revokeAuthToken phase found free =>
    exact hwrite found free AuthToken.not_active_of_revoked
  | insertAuthToken =>
    refine ⟨row, ?_, .inl rfl⟩
    change (ReadCommitted.insert txn _ w.authTokens).get? id = some row
    rw [get?_insert, if_neg, hget]
    rintro rfl
    rw [Table.get?_of_next_le le_rfl] at hget
    cases hget
  | commit =>
    exact ⟨row.commit txn, by exact get?_commit.trans (congrArg _ hget), .inr (.inr (.inl rfl))⟩
  | rollback =>
    exact ⟨row.rollback txn, by exact get?_rollback.trans (congrArg _ hget), .inr (.inr (.inr rfl))⟩
  | _ => exact ⟨row, hget, .inl rfl⟩

/-- The committed version of a token keeps its owner and its purpose, and is replaced only while
it is active. -/
theorem TokensInv.committed_change (hinv : TokensInv w) (h : w.Change hashing txn session w')
    (hget : w.authTokens.get? id = some row) (hcommitted : row.committed = some token) :
    ∃ row' token', w'.authTokens.get? id = some row' ∧ row'.committed = some token' ∧
      token'.userId = token.userId ∧ token'.purpose = token.purpose ∧
      (token' = token ∨ token.Active) := by
  obtain ⟨row', hget', rfl | ⟨new, -, -, rfl⟩ | rfl | rfl⟩ := h.row_cases hget
  · exact ⟨row', token, hget', hcommitted, rfl, rfl, .inl rfl⟩
  · exact ⟨_, token, hget', hcommitted, rfl, rfl, .inl rfl⟩
  · obtain ⟨version, hheld⟩ | hnot := row.held_or_not txn
    · obtain ⟨other, -, -, hholds⟩ := hinv.held hget hheld
      rw [hcommitted] at hholds
      refine ⟨_, version, hget', ?_, hholds.same_owner.1, hholds.same_owner.2, .inr hholds.1⟩
      rw [Row.commit_of_pending hheld]
    · exact ⟨_, token, hget', by rw [Row.commit_of_not_held hnot, hcommitted], rfl, rfl, .inl rfl⟩
  · exact ⟨_, token, hget', by rw [Row.committed_rollback, hcommitted], rfl, rfl, .inl rfl⟩

/-- A token that is committed and inactive is never consumed any more. -/
def World.Expired (before : List Consumption) (id : ℕ) (w : World) : Prop :=
  (∃ token, w.Committed id token ∧ ¬token.Active) ∧
    ∀ e ∈ w.consumptions, e.token = id → e ∈ before

theorem World.Expired.step {a : Action} {before : List Consumption} (hinv : TokensInv w)
    (h : w.Expired before id) (hstep : Auth.step hashing w a = some w') :
    w'.Expired before id := by
  obtain ⟨⟨token, ⟨row, hget, hcommitted⟩, hexpired⟩, hbefore⟩ := h
  rcases step_cases hinv.sessions hstep with
    ⟨txn, request, now, -, rfl⟩ | ⟨txn, session, hsession, hchange, -⟩
  · exact ⟨⟨token, ⟨row, hget, hcommitted⟩, hexpired⟩, hbefore⟩
  · refine ⟨?_, fun e he hid => ?_⟩
    · obtain ⟨row', token', hget', hcommitted', -, -, rfl | hactive⟩ :=
        hinv.committed_change hchange hget hcommitted
      · exact ⟨token', ⟨row', hget', hcommitted'⟩, hexpired⟩
      · exact absurd hactive hexpired
    · cases hchange with
      | commit phase =>
        rcases List.mem_append.mp he with he | he
        · exact hbefore e he hid
        · obtain ⟨-, row', old, hget', hcommitted', -, hpresented⟩ :=
            hinv.consuming hsession (by rw [phase]; rfl) (Option.mem_toList.mp he)
          rw [hid] at hget'
          have hsame := World.Committed.unique ⟨row', hget', hcommitted'⟩ ⟨row, hget, hcommitted⟩
          exact absurd (hsame ▸ hpresented.2.2.1) hexpired
      | _ => exact hbefore e he hid

theorem World.Expired.run {as : List Action} {before : List Consumption} (hinv : TokensInv w)
    (h : w.Expired before id) (hrun : StepSystem.run (Auth.step hashing) w as = some w') :
    w'.Expired before id := by
  have hstep (s : World) (a : Action) (s' : World) (hs : TokensInv s ∧ s.Expired before id)
      (h : Auth.step hashing s a = some s') : TokensInv s' ∧ s'.Expired before id :=
    ⟨hs.1.step h, hs.2.step hs.1 h⟩
  exact (run_invariant hstep ⟨hinv, h⟩ hrun).2

end tokens

/-! ### Revocations -/

/-- The request ends the validity of every token that confirms a change of the account. -/
def Request.revokesCredentials : Request → Bool
  | .resetPassword _ _ | .changePassword _ _ _ | .confirmAccountDeletion _ => true
  | _ => false

/-- A revocation of the purpose is among the statements. -/
def Revokes (purpose : Purpose) (todo : List Statement) : Prop :=
  ∃ userId revoked, Statement.revokeAuthTokens userId revoked ∈ todo ∧ covers revoked purpose

/-- The request has still to start its revocation of the purpose. -/
def Session.BeforeRevocation (purpose : Purpose) (session : Session) : Prop :=
  match session.phase with
  | .started | .consuming _ | .consumed _ _ | .tokenRead _ _ => True
  | .running todo | .revokingRefreshTokens _ _ todo | .revokingAuthTokens _ _ _ todo =>
    Revokes purpose todo
  | .finished _ => False

def AuthToken.isActive (token : AuthToken) : Bool := token.Active

/-- Either the request is about another user, or it has nothing more to do with the row. -/
def Session.Done (session : Session) (txn userId : ℕ) (row : Row AuthToken) : Prop :=
  session.user ≠ some userId ∨ row.Passed AuthToken.isActive txn

/-- How far the revocation of one token has come. -/
def Session.Tracks (session : Session) (txn id userId : ℕ) (purpose : Purpose)
    (row : Row AuthToken) : Prop :=
  match session.phase with
  | .started | .consuming _ | .consumed _ _ | .tokenRead _ _ => True
  | .running todo | .revokingRefreshTokens _ _ todo =>
    Revokes purpose todo ∨ session.Done txn userId row
  | .revokingAuthTokens _ revoked remaining todo =>
    Revokes purpose todo ∨ session.Done txn userId row ∨ covers revoked purpose ∧ id ∈ remaining
  | .finished .succeeded => session.Done txn userId row
  | .finished _ => True

/-- A committed token of the user, and a request that is to revoke it. -/
structure World.Tracked (w : World) (txn id userId : ℕ) (purpose : Purpose) : Prop where
  token : ∃ row token session, w.authTokens.get? id = some row ∧ row.committed = some token ∧
    token.userId = userId ∧ token.purpose = purpose ∧ w.requests txn = some session ∧
    session.request.revokesCredentials = true ∧ session.Tracks txn id userId purpose row

section revocations

variable {hashing : Hashing} {w w' : World} {txn other id userId : ℕ} {purpose : Purpose}
  {session session' : Session} {row row' : Row AuthToken} {token : AuthToken}

theorem Request.Program.revokes {request : Request} {user exchange : Option ℕ}
    {program : List Statement} (h : request.Program user exchange program)
    (hrevokes : request.revokesCredentials = true) (hpurpose : purpose ≠ .emailVerification) :
    Revokes purpose program := by
  have hafter (userId : ℕ) (change : UserChange) : Revokes purpose
      (.updateUser userId change :: revokeCredentialsAfterPasswordChange userId) := by
    cases purpose with
    | emailVerification => exact absurd rfl hpurpose
    | passwordReset =>
      exact ⟨userId, some .passwordReset, by simp [revokeCredentialsAfterPasswordChange],
        by decide⟩
    | accountDeletion =>
      exact ⟨userId, some .accountDeletion, by simp [revokeCredentialsAfterPasswordChange],
        by decide⟩
  cases h with
  | resetPassword => exact hafter _ _
  | changePassword => exact hafter _ _
  | @confirmAccountDeletion rawToken userId change =>
    exact ⟨userId, none, by simp, fun p hp => by cases hp⟩
  | _ => cases hrevokes

/-- What a step of a request does to a row leaves it passed for another. -/
theorem TokensInv.passed (hinv : TokensInv w) (hget : w.authTokens.get? id = some row)
    (hcommitted : row.committed = some token) (h : row.Passed AuthToken.isActive txn)
    (hrow : row' = row ∨ (∃ new, row.Free other ∧ ¬new.Active ∧ row' = row.write other new) ∨
      row' = row.commit other ∨ other ≠ txn ∧ row' = row.rollback other) :
    row'.Passed AuthToken.isActive txn := by
  have hinactive {version : AuthToken} : AuthToken.isActive version = false ↔ ¬version.Active := by
    simp [AuthToken.isActive]
  rcases h with hold | ⟨version, hpending, hversion⟩
  · have hnone := hinv.expired hget hcommitted (hinactive.mp (hold token hcommitted))
    have hfree (holder : ℕ) : ∀ p ∈ row.pending, p.1 ≠ holder := fun p hp => by
      rw [hnone] at hp
      cases hp
    rcases hrow with rfl | ⟨new, -, -, rfl⟩ | rfl | ⟨-, rfl⟩
    · exact .inl hold
    · exact .inl hold
    · rw [Row.commit_of_not_held (hfree other)]
      exact .inl hold
    · rw [Row.rollback_of_not_held (hfree other)]
      exact .inl hold
  · rcases hrow with rfl | ⟨new, hfree, hnew, rfl⟩ | rfl | ⟨hne, rfl⟩
    · exact .inr ⟨version, hpending, hversion⟩
    · obtain rfl : txn = other := hfree _ hpending
      exact .inr ⟨new, rfl, hinactive.mpr hnew⟩
    · by_cases hsame : other = txn
      · subst hsame
        rw [Row.commit_of_pending hpending]
        refine .inl fun committed hc => ?_
        rw [← Option.some.inj hc]
        exact hversion
      · exact .inr ⟨version, (Row.pending_commit_iff (Ne.symm hsame)).mpr hpending, hversion⟩
    · exact .inr ⟨version, (Row.pending_rollback_iff hne.symm).mpr hpending, hversion⟩

/-- A row that a revocation does not find, or looks at again in vain, is passed. -/
theorem TokensInv.passed_of_visible {revoked : Option Purpose} (hinv : TokensInv w)
    (hget : w.authTokens.get? id = some row) (hcommitted : row.committed = some token)
    (howner : token.userId = userId) (hpurpose : token.purpose = purpose)
    (hcovers : covers revoked purpose)
    (h : ∀ version ∈ row.visible txn, version.revocable userId revoked = false) :
    row.Passed AuthToken.isActive txn := by
  refine Row.passed_of_visible fun version hversion => ?_
  have hsame : version.userId = token.userId ∧ version.purpose = token.purpose := by
    obtain ⟨held, hheld⟩ | hnot := row.held_or_not txn
    · obtain rfl := Option.eq_some_unique (Row.visible_of_pending hheld) hversion
      obtain ⟨s, -, -, hholds⟩ := hinv.held hget hheld
      rw [hcommitted] at hholds
      exact hholds.same_owner
    · obtain rfl := Option.some.inj
        (hcommitted.symm.trans ((Row.visible_of_not_held hnot).symm.trans hversion))
      exact ⟨rfl, rfl⟩
  have hnot := h version hversion
  simp only [AuthToken.revocable, decide_eq_false_iff_not, not_and] at hnot
  rw [AuthToken.isActive, decide_eq_false_iff_not]
  refine hnot (hsame.1.trans howner) ?_
  rw [hsame.2, hpurpose]
  exact hcovers

theorem Revokes.tail {statement : Statement} {todo : List Statement}
    (h : Revokes purpose (statement :: todo))
    (hne : ∀ userId revoked, statement ≠ .revokeAuthTokens userId revoked) :
    Revokes purpose todo := by
  obtain ⟨userId, revoked, hmem, hcovers⟩ := h
  rcases List.mem_cons.mp hmem with heq | hmem
  · exact absurd heq.symm (hne userId revoked)
  · exact ⟨userId, revoked, hmem, hcovers⟩

/-- A request that goes on without writing a token comes nearer to its revocation. -/
theorem Session.Moves.tracks (hinv : TokensInv w) (hok : session.Ok)
    (hget : w.authTokens.get? id = some row) (hcommitted : row.committed = some token)
    (howner : token.userId = userId) (hpurpose : token.purpose = purpose)
    (hrevokes : session.request.revokesCredentials = true) (hne : purpose ≠ .emailVerification)
    (h : session.Moves w txn session') (ht : session.Tracks txn id userId purpose row) :
    session'.Tracks txn id userId purpose row := by
  cases h with
  | seek => trivial
  | begin phase program | exchange phase program
  | consumed phase program => exact .inl (program.revokes hrevokes hne)
  | readToken => trivial
  | updateUser phase | findRefreshTokens phase =>
    simp only [Session.Tracks, phase] at ht
    exact ht.imp_left fun hrest => hrest.tail fun _ _ h => by cases h
  | @findAuthTokens owner revoked todo phase =>
    simp only [Session.Tracks, phase] at ht
    simp only [Session.Ok, phase] at hok
    have huser := hok.user_of_revokeAuthTokens
    rcases ht with ⟨owner', revoked', hmem, hcovers⟩ | hdone
    · rcases List.mem_cons.mp hmem with heq | hmem
      · cases heq
        by_cases howner' : owner = userId
        · subst howner'
          -- either the search has found the token, or the session has passed it
          by_cases hfound : id ∈ matching txn (AuthToken.revocable owner revoked) w.authTokens
          · exact .inr (.inr ⟨hcovers, hfound⟩)
          · refine .inr (.inl (.inr (hinv.passed_of_visible hget hcommitted howner hpurpose hcovers
              fun version hversion => Bool.eq_false_iff.mpr fun hmatch => hfound ?_)))
            exact mem_matching_iff.mpr ⟨row, version, hget, hversion, hmatch⟩
        · exact .inr (.inl (.inl fun h => howner' (Option.eq_some_unique huser h)))
      · exact .inl ⟨owner', revoked', hmem, hcovers⟩
    · exact .inr (.inl hdone)
  | passRefreshToken phase | refreshTokensRevoked phase =>
    simp only [Session.Tracks, phase] at ht
    exact ht
  | @passAuthToken owner next revoked remaining todo phase passed =>
    simp only [Session.Tracks, phase] at ht
    simp only [Session.Ok, phase] at hok
    have huser := hok.user_of_revokeAuthTokens
    rcases ht with hrest | hdone | ⟨hcovers, hmem⟩
    · exact .inl hrest
    · exact .inr (.inl hdone)
    · by_cases hid : id = next
      · subst hid
        by_cases howner' : owner = userId
        · subst howner'
          exact .inr (.inl (.inr (hinv.passed_of_visible hget hcommitted howner hpurpose hcovers
            (passed row hget).2)))
        · exact .inr (.inl (.inl fun h => howner' (Option.eq_some_unique huser h)))
      · exact .inr (.inr ⟨hcovers, (List.mem_erase_of_ne hid).mpr hmem⟩)
  | authTokensRevoked phase =>
    simp only [Session.Tracks, phase] at ht
    rcases ht with hrest | hdone | ⟨-, hmem⟩
    · exact .inl hrest
    · exact .inr hdone
    · cases hmem

/-- A step of the request itself. -/
theorem World.Tracked.change (hinv : TokensInv w) (hne : purpose ≠ .emailVerification)
    (h : w.Tracked txn id userId purpose) (hsession : w.requests txn = some session)
    (hchange : w.Change hashing txn session w') : w'.Tracked txn id userId purpose := by
  obtain ⟨row, token, s, hget, hcommitted, howner, hpurpose, hs, hrevokes, ht⟩ := h
  -- a committed token stays committed; what is left is that the session still tracks it
  obtain rfl : session = s := Option.eq_some_unique hsession hs
  obtain ⟨row', token', hget', hcommitted', howner', hpurpose', -⟩ :=
    hinv.committed_change hchange hget hcommitted
  have hok := hinv.sessions txn session hsession
  have hdone {new : Session} {row₁ : Row AuthToken} (huser : new.user = session.user)
      (hrow : row₁ = row ∨ (∃ new, row.Free txn ∧ ¬new.Active ∧ row₁ = row.write txn new) ∨
        row₁ = row.commit txn) (hdone : session.Done txn userId row) :
      new.Done txn userId row₁ := by
    rcases hdone with huser' | hpassed
    · exact .inl (huser ▸ huser')
    · exact .inr (hinv.passed hget hcommitted hpassed
        (hrow.imp_right fun h => h.imp_right Or.inl))
  cases hchange with
  | moves moves =>
    obtain rfl : row = row' := Option.eq_some_unique hget hget'
    exact ⟨row, token, _, hget, hcommitted, howner, hpurpose, Function.update_self ..,
      by rw [moves.request_eq, hrevokes],
      moves.tracks hinv hok hget hcommitted howner hpurpose hrevokes hne ht⟩
  | consume =>
    exact ⟨row', token', _, hget', hcommitted', howner'.trans howner, hpurpose'.trans hpurpose,
      Function.update_self .., hrevokes, trivial⟩
  | @revokeAuthToken owner next revoked remaining todo old version phase found free
      visible revocable =>
    refine ⟨row', token', _, hget', hcommitted', howner'.trans howner, hpurpose'.trans hpurpose,
      Function.update_self .., hrevokes, ?_⟩
    simp only [Session.Tracks, phase] at ht
    -- the row just written is revoked, any other is still on the list
    by_cases hid : id = next
    · subst hid
      obtain rfl : row = old := Option.eq_some_unique hget found
      obtain rfl := Option.eq_some_unique (get?_set_write_self hget) hget'
      exact .inr (.inl (.inr (.inr ⟨_, rfl, decide_eq_false AuthToken.not_active_of_revoked⟩)))
    · obtain rfl : row = row' :=
        Option.some.inj (hget.symm.trans ((get?_set_write_of_ne found hid).symm.trans hget'))
      rcases ht with hrest | hdone' | ⟨hcovers, hmem⟩
      · exact .inl hrest
      · exact .inr (.inl hdone')
      · exact .inr (.inr ⟨hcovers, (List.mem_erase_of_ne hid).mpr hmem⟩)
  | @insertAuthToken new todo phase clear =>
    refine ⟨row', token', _, hget', hcommitted', howner'.trans howner, hpurpose'.trans hpurpose,
      Function.update_self .., hrevokes, ?_⟩
    simp only [Session.Tracks, phase] at ht
    have hrow : row' = row := by
      -- the inserted row is a new one
      have hlt : id ≠ w.authTokens.next := by
        rintro rfl
        rw [Table.get?_of_next_le le_rfl] at hget
        cases hget
      change (ReadCommitted.insert txn new w.authTokens).get? id = some row' at hget'
      rw [get?_insert, if_neg hlt, hget] at hget'
      exact (Option.some.inj hget').symm
    exact ht.imp (fun hrest => hrest.tail fun _ _ h => by cases h) (hdone rfl (.inl hrow))
  | revokeRefreshTokens phase =>
    obtain rfl : row = row' := Option.eq_some_unique hget hget'
    simp only [Session.Tracks, phase] at ht
    exact ⟨row, token, _, hget, hcommitted, howner, hpurpose, Function.update_self .., hrevokes, ht⟩
  | revokeRefreshToken phase | insertRefreshToken phase =>
    obtain rfl : row = row' := Option.eq_some_unique hget hget'
    simp only [Session.Tracks, phase] at ht
    exact ⟨row, token, _, hget, hcommitted, howner, hpurpose, Function.update_self .., hrevokes,
      ht.imp_left fun hrest => hrest.tail fun _ _ h => by cases h⟩
  | commit phase =>
    refine ⟨row', token', _, hget', hcommitted', howner'.trans howner, hpurpose'.trans hpurpose,
      Function.update_self .., hrevokes, ?_⟩
    simp only [Session.Tracks, phase] at ht
    have hrow : row' = row.commit txn :=
      Option.eq_some_unique hget' (get?_commit.trans (congrArg _ hget))
    rcases ht with ⟨_, _, hmem, -⟩ | hdone'
    · cases hmem
    · exact hdone rfl (.inr (.inr hrow)) hdone'
  | @rollback outcome unfinished failed =>
    refine ⟨row', token', _, hget', hcommitted', howner'.trans howner, hpurpose'.trans hpurpose,
      Function.update_self .., hrevokes, ?_⟩
    cases outcome with
    | succeeded => exact absurd rfl failed
    | refused => trivial
    | aborted => trivial

/-- A step of another request. -/
theorem World.Tracked.undisturbed (hinv : TokensInv w) (h : w.Tracked txn id userId purpose)
    (hother : other ≠ txn) (hchange : w.Change hashing other session w')
    (hrequests : w'.requests txn = w.requests txn) : w'.Tracked txn id userId purpose := by
  obtain ⟨row, token, s, hget, hcommitted, howner, hpurpose, hs, hrevokes, ht⟩ := h
  obtain ⟨row', token', hget', hcommitted', howner', hpurpose', -⟩ :=
    hinv.committed_change hchange hget hcommitted
  refine ⟨row', token', s, hget', hcommitted', howner'.trans howner, hpurpose'.trans hpurpose,
    hrequests.trans hs, hrevokes, ?_⟩
  have hdone : s.Done txn userId row → s.Done txn userId row' := by
    refine Or.imp_right fun hpassed => ?_
    obtain ⟨row₁, hget₁, hrow⟩ := hchange.row_cases hget
    obtain rfl : row' = row₁ := Option.eq_some_unique hget' hget₁
    exact hinv.passed hget hcommitted hpassed
      (hrow.imp_right fun h => h.imp_right fun h => h.imp_right fun h => ⟨hother, h⟩)
  unfold Session.Tracks at ht ⊢
  split at ht
  · trivial
  · trivial
  · trivial
  · trivial
  · exact ht.imp_right hdone
  · exact ht.imp_right hdone
  · exact ht.imp_right fun h => h.imp_left hdone
  · exact hdone ht
  · trivial

theorem World.Tracked.step {a : Action} (hinv : TokensInv w) (hne : purpose ≠ .emailVerification)
    (h : w.Tracked txn id userId purpose) (hstep : Auth.step hashing w a = some w') :
    w'.Tracked txn id userId purpose := by
  rcases step_cases hinv.sessions hstep with
    ⟨other, request, now, hnone, rfl⟩ | ⟨other, session, hsession, hchange, -⟩
  · obtain ⟨row, token, s, hget, hcommitted, howner, hpurpose, hs, hrevokes, ht⟩ := h
    refine ⟨row, token, s, hget, hcommitted, howner, hpurpose, ?_, hrevokes, ht⟩
    refine (Function.update_of_ne ?_ ..).trans hs
    rintro rfl
    rw [hnone] at hs
    cases hs
  · by_cases hother : other = txn
    · subst hother
      exact h.change hinv hne hsession hchange
    · obtain ⟨new, hrequests, -⟩ := hchange.requests_eq (hinv.sessions other session hsession)
      refine h.undisturbed hinv hother hchange ?_
      rw [hrequests, Function.update_of_ne (Ne.symm hother)]

theorem World.Tracked.run {as : List Action} (hinv : TokensInv w)
    (hne : purpose ≠ .emailVerification)
    (h : w.Tracked txn id userId purpose) (hrun :
    StepSystem.run (Auth.step hashing) w as = some w') :
    TokensInv w' ∧ w'.Tracked txn id userId purpose := by
  have hstep (s : World) (a : Action) (s' : World)
      (hs : TokensInv s ∧ s.Tracked txn id userId purpose) (h : Auth.step hashing s a = some s') :
      TokensInv s' ∧ s'.Tracked txn id userId purpose :=
    ⟨hs.1.step h, hs.2.step hs.1 hne h⟩
  have hend := run_invariant hstep ⟨hinv, h⟩ hrun
  exact hend

/-- A request that has not started its revocation tracks every token. -/
theorem Session.BeforeRevocation.tracks (h : session.BeforeRevocation purpose) :
    session.Tracks txn id userId purpose row := by
  cases hphase : session.phase <;> simp only [Session.BeforeRevocation, hphase] at h <;>
    simp only [Session.Tracks, hphase]
  · exact .inl h
  · exact .inl h
  · exact .inl h

/-- After a successful request about the user, the token is inactive. -/
theorem World.Tracked.expired (hinv : TokensInv w) (h : w.Tracked txn id userId purpose)
    (hsession : w.requests txn = some session) (hphase : session.phase = .finished .succeeded)
    (huser : session.user = some userId) : w.Expired w.consumptions id := by
  obtain ⟨row, token, s, hget, hcommitted, -, -, hs, -, ht⟩ := h
  obtain rfl : session = s := Option.eq_some_unique hsession hs
  simp only [Session.Tracks, hphase] at ht
  refine ⟨⟨token, ⟨row, hget, hcommitted⟩, ?_⟩, fun e he _ => he⟩
  rcases ht with hne | hpassed | ⟨version, hpending, -⟩
  · exact absurd huser hne
  · simpa [AuthToken.isActive] using hpassed token hcommitted
  · obtain ⟨s, hs, hbusy, -⟩ := hinv.held hget hpending
    obtain rfl : session = s := Option.eq_some_unique hsession hs
    rw [hphase] at hbusy
    cases hbusy

end revocations

/-! ### The main result -/

/-- What holds of the email tokens in a state `w` that is reached: consumptions are unique and
valid, only they mark a token as used, and none is by a request that has failed; one token is
active for each user and purpose; and in whatever follows, a token that is not active is never
consumed, nor is one that was committed before a successful change of the account started to
revoke it. -/
structure World.EmailTokens (hashing : Hashing) (w : World) : Prop where
  once : (w.consumptions.map (·.token)).Nodup
  valid : ∀ e ∈ w.consumptions, w.Consumed e
  consumed : ∀ id token, w.Committed id token → token.usedAt ≠ none →
    ∃ e ∈ w.consumptions, e.token = id
  failed : ∀ txn session outcome, w.requests txn = some session →
    session.phase = .finished outcome → outcome ≠ .succeeded → ∀ e ∈ w.consumptions, e.request ≠ txn
  unique : ∀ id id' token token', w.Committed id token → w.Committed id' token' → token.Active →
    token'.Active → token.userId = token'.userId → token.purpose = token'.purpose → id = id'
  expired : ∀ id token as w', w.Committed id token → ¬token.Active →
    run (step hashing) w as = some w' → ∀ e ∈ w'.consumptions, e.token = id → e ∈ w.consumptions
  revoked : ∀ id token txn session, w.Committed id token → token.purpose ≠ .emailVerification →
    w.requests txn = some session → session.request.revokesCredentials = true →
    session.BeforeRevocation token.purpose →
    ∀ as w₁ session₁, run (step hashing) w as = some w₁ → w₁.requests txn = some session₁ →
      session₁.phase = .finished .succeeded → session₁.user = some token.userId →
      ∀ bs w₂, run (step hashing) w₁ bs = some w₂ →
        ∀ e ∈ w₂.consumptions, e.token = id → e ∈ w₁.consumptions

theorem TokensInv.tokensValid {hashing : Hashing} {w : World} (hinv : TokensInv w) :
    w.EmailTokens hashing where
  once := hinv.nodup
  valid := hinv.consumed
  consumed _ _ := hinv.used
  failed txn session outcome hsession hphase hfailed e he := by
    rintro rfl
    obtain ⟨done, hdone, hsucceeded⟩ := (hinv.consumed e he).request
    obtain rfl : session = done := Option.eq_some_unique hsession hdone
    rw [hphase] at hsucceeded
    exact hfailed (Phase.finished.inj hsucceeded)
  unique id id' token token' h h' hactive hactive' huser hpurpose := by
    have hkey {t : AuthToken} (ht : t.Active) : t.activeKey =
      some (t.userId, t.purpose) := if_pos ht
    obtain ⟨row, hget, hcommitted⟩ := h
    obtain ⟨row', hget', hcommitted'⟩ := h'
    refine hinv.unique.committed ⟨row, token, hget, hcommitted, hkey hactive⟩
      ⟨row', token', hget', hcommitted', ?_⟩
    rw [hkey hactive', huser, hpurpose]
  expired id token as w' h hexpired hrun := by
    have hafter : w'.Expired w.consumptions id :=
      World.Expired.run hinv ⟨⟨token, h, hexpired⟩, fun e he _ => he⟩ hrun
    exact hafter.2
  revoked id token txn session h hpurpose hsession hrevokes hbefore as w₁ session₁ hrun₁ hsession₁
      hphase huser bs w₂ hrun₂ := by
    obtain ⟨row, hget, hcommitted⟩ := h
    have htracked : w.Tracked txn id token.userId token.purpose :=
      ⟨row, token, session, hget, hcommitted, rfl, rfl, hsession, hrevokes, hbefore.tracks⟩
    obtain ⟨hinv₁, htracked₁⟩ := htracked.run hinv hpurpose hrun₁
    have hexpired : w₁.Expired w₁.consumptions id :=
      htracked₁.expired hinv₁ hsession₁ hphase huser
    exact (hexpired.run hinv₁ hrun₂).2

/-- **Email tokens.** For every interleaving of the requests: a token is consumed at most once,
while it is valid and for its own purpose, by a request that succeeds; a user has one active token
for each purpose at most; and a successful change of the account ends every token that was
committed before. -/
theorem emailTokens {hashing : Hashing} {w₀ w : World} {as : List Action} (hstart : w₀.Starts)
    (hrun : run (step hashing) w₀ as = some w) : w.EmailTokens hashing :=
  have hinv : TokensInv w := run_invariant (fun _ _ _ h hstep => h.step hstep) hstart.tokensInv hrun
  hinv.tokensValid

/-- A token is issued, and presented twice at the same time. -/
def presentedTwice : List Action :=
  .start 0 (.issueAuthToken bea .passwordReset "t" 100) 1 :: List.replicate 5 (.advance 0 0) ++
    [.start 1 (.resetPassword "t" "new") 2, .start 2 (.resetPassword "t" "other") 2,
      .advance 1 0, .advance 2 0] ++ List.replicate 10 (.advance 1 0) ++ [.advance 2 0]

/-- One of the two requests succeeds. -/
theorem emailTokens_presentedTwice :
    ∃ w, run (step plainHashing) beaAccount presentedTwice = some w ∧
      (w.consumptions = [⟨1, 0, .passwordReset, "t", 2⟩] ∧
        (w.requests 1).any (·.phase = .finished .succeeded) ∧
        (w.requests 2).any (·.phase = .finished (.refused 400 invalidResetMessage))) ∧
      w.EmailTokens plainHashing := by
  obtain ⟨w, hrun, hphases⟩ :
      ∃ w, run (step plainHashing) beaAccount presentedTwice = some w ∧
        (w.consumptions = [⟨1, 0, .passwordReset, "t", 2⟩] ∧
          (w.requests 1).any (·.phase = .finished .succeeded) ∧
          (w.requests 2).any (·.phase = .finished (.refused 400 invalidResetMessage))) :=
    exists_run (by decide +kernel)
  exact ⟨w, hrun, hphases, emailTokens starts_beaAccount hrun⟩

end IChat.Auth
