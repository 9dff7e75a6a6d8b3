import IChat.Frontend.ApiClient

/-!
# Sessions, when nothing has changed in the meantime

`refreshSession` reads the refresh token before its request and writes after it, and does not look
at the storage in between. `Unchanged` is the condition that a second look would have found nothing
to object to: the storage still has the session that was sent, or what the same refresh has already
saved, or it is empty and no logout has emptied it.

* `BrowserInv` is what holds of every state: the promises of the clients are their refreshes in
  flight, the server's answers are newer than what was sent, and a refresh that knows the session in
  the storage has not been outlived by a logout.
* `sessions_safe_of_unchanged`: in a run whose steps meet the condition, every step is safe, and a
  client has at most one refresh in flight.
* `overtaken_not_safe` has three runs in which a second look would have objected: a logout, a
  rotation in another tab, and two logins that overtake each other.
-/

namespace IChat.Frontend

namespace Browser

variable {Tab User : Type}

/-- The refresh that the handler waits for. -/
def awaited (w : Browser Tab User) (h : ℕ) : Option (RefreshRequest Tab User) :=
  match w.handlers h with
  | some (.refreshing _ _ r) => w.refreshes r
  | _ => none

/-- The session that a login has been answered with. -/
def loginAnswer (w : Browser Tab User) (h : ℕ) : Option (AuthTokenResponse User) :=
  match w.handlers h with
  | some (.login answer) => answer.join
  | _ => none

/-- The storage is as the refresh has left it: it has the token that was sent, or the one that the
refresh has brought; or it is empty, and where there is something to save, no logout emptied it. -/
def StillHolds (w : Browser Tab User) (request : RefreshRequest Tab User) : Prop :=
  (∀ session ∈ w.stored, session.refreshToken = request.token ∨
    ∃ refreshed ∈ request.result.join, session.refreshToken = refreshed.refreshToken) ∧
  (w.stored.isNone → request.result.join.isSome → request.startedAt = w.logouts)

/-- The condition on a step. -/
def Unchanged (w : Browser Tab User) : BrowserAction Tab User → Prop
  | .resume h _ => ∀ request ∈ w.awaited h, w.StillHolds request
  -- no session has been saved that was issued after the one of the login
  | .loginAnswered h lost _ => lost = false → ∀ tokens ∈ w.loginAnswer h, ∀ session ∈ w.stored,
      session.refreshToken ≤ tokens.refreshToken
  | _ => True

instance (w : Browser Tab User) (request : RefreshRequest Tab User) :
    Decidable (w.StillHolds request) :=
  inferInstanceAs (Decidable ((∀ session ∈ w.stored, _ ∨ ∃ refreshed ∈ request.result.join, _) ∧ _))

instance (w : Browser Tab User) : ∀ action, Decidable (w.Unchanged action)
  | .resume h _ => inferInstanceAs (Decidable (∀ request ∈ w.awaited h, w.StillHolds request))
  | .loginAnswered h _ _ => inferInstanceAs (Decidable (_ → ∀ tokens ∈ w.loginAnswer h,
      ∀ session ∈ w.stored, session.refreshToken ≤ tokens.refreshToken))
  | .fetch .. | .respond .. | .serveRefresh .. | .settleRefresh .. | .login .. | .serveLogin ..
  | .logout .. | .serveLogout .. | .logoutAnswered .. | .updateUser .. => isTrue trivial

end Browser

/-! ### What the parties know of the tokens -/

variable {Tab User : Type}

/-- The refresh has sent the token, or the server has answered it with the token. -/
def RefreshRequest.Knows (request : RefreshRequest Tab User) (token : ℕ) : Prop :=
  request.token = token ∨
    ∃ response, request.answer = some (some response) ∧ response.refreshToken = token

/-- What holds of the tokens: the one in the storage, those of the refreshes, those of the logins
whose answers are on their way, and the ones the server has issued and exchanged. -/
structure Ledger (held : Option ℕ) (refreshes : ℕ → Option (RefreshRequest Tab User))
    (pending : ℕ → ℕ → Prop) (issued : ℕ) (exchanged : ℕ → Option ℕ) (logouts : ℕ) : Prop where
  held_lt : ∀ n ∈ held, n < issued
  sent : ∀ r request, refreshes r = some request →
    request.token < issued ∧ request.startedAt ≤ logouts
  answered : ∀ r request response, refreshes r = some request →
    request.answer = some (some response) →
      request.token < response.refreshToken ∧ response.refreshToken < issued
  unique : ∀ r r' request request' response response', refreshes r = some request →
    refreshes r' = some request' → request.answer = some (some response) →
      request'.answer = some (some response') →
        response.refreshToken = response'.refreshToken → r = r'
  settled : ∀ r request response, refreshes r = some request →
    request.result = some (some response) → request.answer = some (some response)
  /-- A session that only the server and the answer to a login know. -/
  fresh : ∀ h n, pending h n → n < issued ∧ n ∉ held ∧
    ∀ r request, refreshes r = some request → ¬request.Knows n
  pending_unique : ∀ h h' n, pending h n → pending h' n → h = h'
  /-- No logout has outlived a refresh that knows the session in the storage. -/
  current : ∀ n ∈ held, ∀ r request, refreshes r = some request → request.Knows n →
    request.startedAt = logouts
  /-- A refresh that sends what another one was answered with is started after that one. -/
  ordered : ∀ r r' request request' response, refreshes r = some request →
    refreshes r' = some request' → request'.answer = some (some response) →
      request.token = response.refreshToken → request'.startedAt ≤ request.startedAt
  exchanged : ∀ n r, exchanged n = some r → ∃ request response, refreshes r = some request ∧
    request.token = n ∧ request.answer = some (some response)

section Ledger

variable {held held' : Option ℕ} {refreshes : ℕ → Option (RefreshRequest Tab User)}
  {pending pending' : ℕ → ℕ → Prop} {issued : ℕ} {exchanged exchanged' : ℕ → Option ℕ}
  {logouts logouts' : ℕ} {r h : ℕ} {request : RefreshRequest Tab User}
  {response : AuthTokenResponse User}

theorem RefreshRequest.Knows.lt {n : ℕ} (h : Ledger held refreshes pending issued exchanged logouts)
    (hget : refreshes r = some request) (hknows : request.Knows n) : n < issued := by
  rcases hknows with rfl | ⟨response, hanswer, rfl⟩
  · exact (h.sent r request hget).1
  · exact (h.answered r request response hget hanswer).2

/-- The storage keeps its session or loses it, and answers to logins go. -/
theorem Ledger.shrink (h : Ledger held refreshes pending issued exchanged logouts)
    (hheld : held' = held ∧ logouts' = logouts ∨ held' = none ∧ logouts ≤ logouts')
    (hpending : ∀ k n, pending' k n → pending k n) (hexchanged : exchanged' = exchanged) :
    Ledger held' refreshes pending' issued exchanged' logouts' := by
  subst hexchanged
  have hmem : ∀ n ∈ held', n ∈ held ∧ logouts' = logouts := by
    intro n hn
    rcases hheld with ⟨rfl, rfl⟩ | ⟨rfl, -⟩
    · exact ⟨hn, rfl⟩
    · cases hn
  have hle : logouts ≤ logouts' := by
    rcases hheld with ⟨-, rfl⟩ | ⟨-, hle⟩
    · exact Nat.le_refl _
    · exact hle
  exact {
    h with
    held_lt := fun n hn => h.held_lt n (hmem n hn).1
    sent := fun r request hget =>
      ⟨(h.sent r request hget).1, Nat.le_trans (h.sent r request hget).2 hle⟩
    fresh := fun k n hk =>
      have ⟨hlt, hnew, hknows⟩ := h.fresh k n (hpending k n hk)
      ⟨hlt, fun hn => hnew (hmem n hn).1, hknows⟩
    pending_unique := fun k k' n hk hk' =>
      h.pending_unique k k' n (hpending k n hk) (hpending k' n hk')
    current := fun n hn r request hget hknows => by
      rw [(hmem n hn).2]
      exact h.current n (hmem n hn).1 r request hget hknows }

/-- A refresh starts with the session in the storage. -/
theorem Ledger.start {tab : Tab} {n : ℕ}
    (h : Ledger (some n) refreshes pending issued exchanged logouts) (hnew : refreshes r = none) :
    Ledger (some n) (Function.update refreshes r (some ⟨tab, n, none, none, logouts⟩)) pending
      issued exchanged logouts := by
  have hold : ∀ r' request', Function.update refreshes r
      (some ⟨tab, n, none, none, logouts⟩) r' = some request' →
        r' = r ∧ request' = ⟨tab, n, none, none, logouts⟩ ∨
          r' ≠ r ∧ refreshes r' = some request' :=
    fun r' request' => StepSystem.of_update_some
  -- the new request knows nothing but the token that it sends
  refine ⟨h.held_lt, ?_, ?_, ?_, ?_, ?_, h.pending_unique, ?_, ?_, ?_⟩
  · intro r' request' hget
    obtain ⟨rfl, rfl⟩ | ⟨-, hget⟩ := hold r' request' hget
    · exact ⟨h.held_lt n rfl, Nat.le_refl _⟩
    · exact h.sent r' request' hget
  · intro r' request' response hget hanswer
    obtain ⟨rfl, rfl⟩ | ⟨-, hget⟩ := hold r' request' hget
    · cases hanswer
    · exact h.answered r' request' response hget hanswer
  · intro r₁ r₂ request₁ request₂ response₁ response₂ h₁ h₂ ha₁ ha₂ heq
    obtain ⟨rfl, rfl⟩ | ⟨-, h₁⟩ := hold r₁ request₁ h₁
    · cases ha₁
    obtain ⟨rfl, rfl⟩ | ⟨-, h₂⟩ := hold r₂ request₂ h₂
    · cases ha₂
    exact h.unique r₁ r₂ request₁ request₂ response₁ response₂ h₁ h₂ ha₁ ha₂ heq
  · intro r' request' response hget hresult
    obtain ⟨rfl, rfl⟩ | ⟨-, hget⟩ := hold r' request' hget
    · cases hresult
    · exact h.settled r' request' response hget hresult
  · intro k m hk
    obtain ⟨hlt, hm, hknows⟩ := h.fresh k m hk
    refine ⟨hlt, hm, fun r' request' hget => ?_⟩
    obtain ⟨rfl, rfl⟩ | ⟨-, hget⟩ := hold r' request' hget
    · rintro (rfl | ⟨response, hanswer, -⟩)
      · exact hm rfl
      · cases hanswer
    · exact hknows r' request' hget
  · intro m hm r' request' hget hknows
    obtain ⟨rfl, rfl⟩ | ⟨-, hget⟩ := hold r' request' hget
    · rfl
    · exact h.current m hm r' request' hget hknows
  · intro r₁ r₂ request₁ request₂ response h₁ h₂ hanswer heq
    obtain ⟨rfl, rfl⟩ | ⟨-, hold₂⟩ := hold r₂ request₂ h₂
    · cases hanswer
    obtain ⟨rfl, rfl⟩ | ⟨-, hold₁⟩ := hold r₁ request₁ h₁
    · exact (h.sent r₂ request₂ hold₂).2
    · exact h.ordered r₁ r₂ request₁ request₂ response hold₁ hold₂ hanswer heq
  · intro m r' hm
    obtain ⟨request', response, hget, htoken, hanswer⟩ := h.exchanged m r' hm
    have hne : r' ≠ r := by
      rintro rfl
      rw [hnew] at hget
      cases hget
    exact ⟨request', response, by rw [Function.update_of_ne hne, hget], htoken, hanswer⟩

/-- The record of a refresh is filled in: with the next token the server issues, or with a result it
has been answered with. -/
theorem Ledger.update {request' : RefreshRequest Tab User} {issued' : ℕ}
    (h : Ledger held refreshes pending issued exchanged logouts) (hget : refreshes r = some request)
    (htoken : request'.token = request.token) (hstarted : request'.startedAt = request.startedAt)
    (hle : issued ≤ issued')
    (hkeep : ∀ response, request.answer = some (some response) →
      request'.answer = some (some response))
    (hanswer : ∀ response, request'.answer = some (some response) →
      request.answer = some (some response) ∨ response.refreshToken = issued ∧ issued < issued')
    (hresult : ∀ response, request'.result = some (some response) →
      request'.answer = some (some response))
    (hexchanged : ∀ n k, exchanged' n = some k → exchanged n = some k ∨
      n = request.token ∧ k = r ∧ ∃ response, request'.answer = some (some response)) :
    Ledger held (Function.update refreshes r (some request')) pending issued'
      exchanged' logouts := by
  -- what a record says was said before, or is the new token
  have hold : ∀ k q, Function.update refreshes r (some request') k = some q →
      ∃ p, refreshes k = some p ∧ q.token = p.token ∧ q.startedAt = p.startedAt ∧
        ∀ response, q.answer = some (some response) → p.answer = some (some response) ∨
          k = r ∧ response.refreshToken = issued ∧ issued < issued' := by
    intro k q hq
    obtain ⟨rfl, rfl⟩ | ⟨-, hq⟩ := StepSystem.of_update_some hq
    · refine ⟨request, hget, htoken, hstarted, fun response ha => ?_⟩
      exact (hanswer response ha).imp_right fun hnew => ⟨rfl, hnew⟩
    · exact ⟨q, hq, rfl, rfl, fun _ ha => .inl ha⟩
  refine ⟨fun n hn => ?_, fun k q hq => ?_, fun k q response hq ha => ?_, ?_, ?_, ?_,
    h.pending_unique, ?_, ?_, ?_⟩
  · exact Nat.lt_of_lt_of_le (h.held_lt n hn) hle
  · obtain ⟨p, hp, htoken', hstarted', -⟩ := hold k q hq
    have := h.sent k p hp
    omega
  · obtain ⟨p, hp, htoken', -, hanswer'⟩ := hold k q hq
    have hsent := h.sent k p hp
    rcases hanswer' response ha with ha | ⟨-, hnew, hlt⟩
    · have := h.answered k p response hp ha
      omega
    · omega
  · intro k₁ k₂ q₁ q₂ a₁ a₂ h₁ h₂ ha₁ ha₂ heq
    obtain ⟨p₁, hp₁, -, -, hanswer₁⟩ := hold k₁ q₁ h₁
    obtain ⟨p₂, hp₂, -, -, hanswer₂⟩ := hold k₂ q₂ h₂
    rcases hanswer₁ a₁ ha₁ with ha₁ | ⟨rfl, hnew₁, -⟩ <;>
      rcases hanswer₂ a₂ ha₂ with ha₂ | ⟨rfl, hnew₂, -⟩
    · exact h.unique k₁ k₂ p₁ p₂ a₁ a₂ hp₁ hp₂ ha₁ ha₂ heq
    · have := (h.answered k₁ p₁ a₁ hp₁ ha₁).2
      omega
    · have := (h.answered k₂ p₂ a₂ hp₂ ha₂).2
      omega
    · rfl
  · intro k q response hq hr
    obtain ⟨rfl, rfl⟩ | ⟨-, hq⟩ := StepSystem.of_update_some hq
    · exact hresult response hr
    · exact h.settled k q response hq hr
  · intro k n hk
    obtain ⟨hlt, hnew, hknows⟩ := h.fresh k n hk
    refine ⟨by omega, hnew, fun k' q hq => ?_⟩
    obtain ⟨p, hp, htoken', -, hanswer'⟩ := hold k' q hq
    rintro (rfl | ⟨response, ha, rfl⟩)
    · exact hknows k' p hp (.inl htoken'.symm)
    · rcases hanswer' response ha with ha | ⟨-, hissued, -⟩
      · exact hknows k' p hp (.inr ⟨response, ha, rfl⟩)
      · omega
  · intro n hn k q hq hknows
    obtain ⟨p, hp, htoken', hstarted', hanswer'⟩ := hold k q hq
    rw [hstarted']
    refine h.current n hn k p hp ?_
    rcases hknows with rfl | ⟨response, ha, rfl⟩
    · exact .inl htoken'.symm
    · rcases hanswer' response ha with ha | ⟨-, hissued, -⟩
      · exact .inr ⟨response, ha, rfl⟩
      · have := h.held_lt _ hn
        omega
  · intro k₁ k₂ q₁ q₂ response h₁ h₂ ha heq
    obtain ⟨p₁, hp₁, htoken₁, hstarted₁, -⟩ := hold k₁ q₁ h₁
    obtain ⟨p₂, hp₂, -, hstarted₂, hanswer₂⟩ := hold k₂ q₂ h₂
    rw [hstarted₁, hstarted₂]
    rcases hanswer₂ response ha with ha | ⟨-, hissued, -⟩
    · exact h.ordered k₁ k₂ p₁ p₂ response hp₁ hp₂ ha (htoken₁.symm.trans heq)
    · have := (h.sent k₁ p₁ hp₁).1
      omega
  · intro n k hn
    rcases hexchanged n k hn with hn | ⟨rfl, rfl, response, ha⟩
    · obtain ⟨p, response, hp, htoken', ha⟩ := h.exchanged n k hn
      by_cases hk : k = r
      · subst hk
        obtain rfl : request = p := Option.eq_some_unique hget hp
        exact ⟨request', response, Function.update_self .., htoken.trans htoken', hkeep response ha⟩
      · exact ⟨p, response, by rw [Function.update_of_ne hk, hp], htoken', ha⟩
    · exact ⟨request', response, Function.update_self .., htoken, ha⟩

/-- The server answers a login. -/
theorem Ledger.answerLogin (h : Ledger held refreshes pending issued exchanged logouts)
    (hpending : ∀ k n, pending' k n → pending k n ∨ k = r ∧ n = issued) :
    Ledger held refreshes pending' (issued + 1) exchanged logouts where
  held_lt n hn := Nat.lt_succ_of_lt (h.held_lt n hn)
  sent k q hq := ⟨Nat.lt_succ_of_lt (h.sent k q hq).1, (h.sent k q hq).2⟩
  answered k q response hq ha :=
    ⟨(h.answered k q response hq ha).1, Nat.lt_succ_of_lt (h.answered k q response hq ha).2⟩
  unique := h.unique
  settled := h.settled
  fresh k n hk := by
    rcases hpending k n hk with hk | ⟨-, rfl⟩
    · obtain ⟨hlt, hnew, hknows⟩ := h.fresh k n hk
      exact ⟨Nat.lt_succ_of_lt hlt, hnew, hknows⟩
    · exact ⟨Nat.lt_succ_self n, fun hn => Nat.lt_irrefl _ (h.held_lt n hn),
        fun k q hq hknows => Nat.lt_irrefl _ (hknows.lt h hq)⟩
  pending_unique k k' n hk hk' := by
    rcases hpending k n hk with hk | ⟨rfl, rfl⟩ <;> rcases hpending k' _ hk' with hk' | ⟨rfl, hn⟩
    · exact h.pending_unique k k' n hk hk'
    · have := (h.fresh k n hk).1
      omega
    · exact absurd (h.fresh k' _ hk').1 (Nat.lt_irrefl _)
    · rfl
  current := h.current
  ordered := h.ordered
  exchanged := h.exchanged

/-- A refresh that no logout has outlived saves what it was answered with. -/
theorem Ledger.saveRefresh (h : Ledger held refreshes pending issued exchanged logouts)
    (hget : refreshes r = some request) (hanswer : request.answer = some (some response))
    (hcurrent : request.startedAt = logouts) (hpending : ∀ k n, pending' k n → pending k n) :
    Ledger (some response.refreshToken) refreshes pending' issued exchanged logouts where
  held_lt n hn := by
    cases hn
    exact (h.answered r request response hget hanswer).2
  sent := h.sent
  answered := h.answered
  unique := h.unique
  settled := h.settled
  fresh k n hk := by
    obtain ⟨hlt, -, hknows⟩ := h.fresh k n (hpending k n hk)
    refine ⟨hlt, fun hn => ?_, hknows⟩
    cases hn
    exact hknows r request hget (.inr ⟨response, hanswer, rfl⟩)
  pending_unique k k' n hk hk' := h.pending_unique k k' n (hpending k n hk) (hpending k' n hk')
  current n hn k q hq hknows := by
    cases hn
    rcases hknows with heq | ⟨response', hanswer', heq⟩
    · have hle := h.ordered k r q request response hq hget hanswer heq
      have := (h.sent k q hq).2
      omega
    · obtain rfl := h.unique k r q request response' response hq hget hanswer' hanswer heq
      obtain rfl : q = request := Option.eq_some_unique hq hget
      exact hcurrent
  ordered := h.ordered
  exchanged := h.exchanged

/-- A login saves what it was answered with. -/
theorem Ledger.saveLogin {n : ℕ} (h : Ledger held refreshes pending issued exchanged logouts)
    (hn : pending r n) (hpending : ∀ k m, pending' k m → k ≠ r ∧ pending k m) :
    Ledger (some n) refreshes pending' issued exchanged logouts where
  held_lt m hm := by
    cases hm
    exact (h.fresh r n hn).1
  sent := h.sent
  answered := h.answered
  unique := h.unique
  settled := h.settled
  fresh k m hk := by
    obtain ⟨hne, hk⟩ := hpending k m hk
    obtain ⟨hlt, -, hknows⟩ := h.fresh k m hk
    refine ⟨hlt, fun hm => ?_, hknows⟩
    cases hm
    exact hne (h.pending_unique k r n hk hn)
  pending_unique k k' m hk hk' :=
    h.pending_unique k k' m (hpending k m hk).2 (hpending k' m hk').2
  current m hm k q hq hknows := by
    cases hm
    exact absurd hknows ((h.fresh r n hn).2.2 k q hq)
  ordered := h.ordered
  exchanged := h.exchanged

end Ledger

namespace Browser

/-- The token of the session in the storage. -/
def held (w : Browser Tab User) : Option ℕ := w.stored.map (·.refreshToken)

/-- The answer to the login is on its way. -/
def LoginPending (w : Browser Tab User) (h n : ℕ) : Prop :=
  ∃ response, w.handlers h = some (.login (some (some response))) ∧ response.refreshToken = n

/-- The refresh that has exchanged the token. -/
def exchangedBy (w : Browser Tab User) (n : ℕ) : Option ℕ :=
  (w.tokens[n]?).bind (·.exchangedBy)

/-- What holds of every state. -/
structure BrowserInv (w : Browser Tab User) : Prop where
  promise : ∀ tab r, w.refreshPromise tab = some r ↔
    ∃ request, w.InFlight r request ∧ request.tab = tab
  ledger : Ledger w.held w.refreshes w.LoginPending w.tokens.length w.exchangedBy w.logouts

variable {w w' : Browser Tab User} {h r : ℕ} {request : RefreshRequest Tab User}

/-- A client has at most one refresh in flight. -/
theorem BrowserInv.oneRefresh (hinv : BrowserInv w) : OneRefresh w := by
  intro r r' request request' hr hr' htab
  have hpromise := (hinv.promise request.tab r).mpr ⟨request, hr, rfl⟩
  have hpromise' := (hinv.promise request.tab r').mpr ⟨request', hr', htab.symm⟩
  exact Option.eq_some_unique hpromise hpromise'

theorem Opened.inv (hopened : Opened w) : BrowserInv w where
  promise tab r := by
    simp [hopened.idle, InFlight, hopened.refreshes]
  ledger :=
    { held_lt := fun n hn => by
        obtain ⟨session, hsession, rfl⟩ := Option.map_eq_some_iff.mp hn
        exact hopened.issued session hsession
      sent := fun r _ hget => by simp [hopened.refreshes] at hget
      answered := fun r _ _ hget => by simp [hopened.refreshes] at hget
      unique := fun r _ _ _ _ _ hget => by simp [hopened.refreshes] at hget
      settled := fun r _ _ hget => by simp [hopened.refreshes] at hget
      fresh := fun h n ⟨_, hh, _⟩ => by simp [hopened.handlers] at hh
      pending_unique := fun h _ n ⟨_, hh, _⟩ => by simp [hopened.handlers] at hh
      current := fun n _ r _ hget => by simp [hopened.refreshes] at hget
      ordered := fun r _ _ _ _ hget => by simp [hopened.refreshes] at hget
      exchanged := fun n r hn => by
        obtain ⟨row, hrow, hr⟩ := Option.bind_eq_some_iff.mp hn
        rw [hopened.exchanged row (List.mem_of_getElem? hrow)] at hr
        cases hr }

/-- The handler that goes on has no answer to a login any more. -/
theorem LoginPending.of_update {handler : Option (Handler Tab User)} {k n : ℕ}
    (hhandlers : w'.handlers = Function.update w.handlers h handler)
    (hnot : ∀ response, handler ≠ some (.login (some (some response))))
    (hpending : w'.LoginPending k n) : k ≠ h ∧ w.LoginPending k n := by
  obtain ⟨response, hk, rfl⟩ := hpending
  rw [hhandlers] at hk
  by_cases hkh : k = h
  · subst hkh
    rw [Function.update_self] at hk
    exact absurd hk (hnot response)
  · rw [Function.update_of_ne hkh] at hk
    exact ⟨hkh, response, hk, rfl⟩

/-! ### The steps -/

/-- A step that starts, answers and settles no refresh, and at most removes the session. -/
theorem BrowserInv.quiet (hinv : BrowserInv w) (hrefreshes : w'.refreshes = w.refreshes)
    (hpromise : w'.refreshPromise = w.refreshPromise) (hlength : w'.tokens.length = w.tokens.length)
    (hexchanged : w'.exchangedBy = w.exchangedBy)
    (hheld : w'.held = w.held ∧ w'.logouts = w.logouts ∨ w'.held = none ∧ w.logouts ≤ w'.logouts)
    (hpending : ∀ k n, w'.LoginPending k n → w.LoginPending k n) : BrowserInv w' where
  promise tab r := by
    simpa only [hpromise, InFlight, hrefreshes] using hinv.promise tab r
  ledger := by
    rw [hrefreshes, hlength]
    exact hinv.ledger.shrink hheld hpending hexchanged

/-- A handler goes on, or is over, without an answer to a login. -/
theorem BrowserInv.handler {handler : Option (Handler Tab User)} (hinv : BrowserInv w)
    (hnot : ∀ response, handler ≠ some (.login (some (some response)))) :
    BrowserInv { w with handlers := Function.update w.handlers h handler } :=
  hinv.quiet rfl rfl rfl rfl (.inl ⟨rfl, rfl⟩) fun _ _ hk => (hk.of_update rfl hnot).2

/-- The storage keeps the token that it has. -/
theorem BrowserInv.item {item : Option (StoredItem User)} (hinv : BrowserInv w)
    (hitem : (TokenStore.session? item).map (·.refreshToken) = w.held) :
    BrowserInv { w with item } :=
  hinv.quiet rfl rfl rfl rfl (.inl ⟨hitem, rfl⟩) fun _ _ hk => hk

/-- The storage is cleared. -/
theorem BrowserInv.clear {logouts : ℕ} (hinv : BrowserInv w) (hle : w.logouts ≤ logouts) :
    BrowserInv { w with item := TokenStore.clear, logouts } :=
  hinv.quiet rfl rfl rfl rfl (.inr ⟨rfl, hle⟩) fun _ _ hk => hk

theorem BrowserInv.buildHeaders (hinv : BrowserInv w) (options : ApiRequestOptions) :
    BrowserInv (w.buildHeaders options) := by
  unfold Browser.buildHeaders
  split
  · exact hinv.item (by rw [TokenStore.session?_getAccessToken]; rfl)
  · exact hinv

/-- The record of a refresh is filled in, and its promise is as it was. -/
theorem BrowserInv.answer {answer : Option (Option (AuthTokenResponse User))}
    {tokens : List ServerToken} (hinv : BrowserInv w) (hget : w.refreshes r = some request)
    (hledger : Ledger w.held (Function.update w.refreshes r (some { request with answer }))
      w.LoginPending tokens.length
        (exchangedBy { w with tokens }) w.logouts) :
    BrowserInv { w with
      tokens
      refreshes := Function.update w.refreshes r (some { request with answer }) } where
  promise tab r' := by
    dsimp only
    rw [hinv.promise tab r']
    simp only [InFlight]
    by_cases hr : r' = r
    · subst hr
      simp [hget]
    · simp [Function.update_of_ne hr]
  ledger := hledger

/-- A token that has just been issued has not been exchanged. -/
theorem exchangedBy_issue {tokens : List ServerToken} :
    exchangedBy { w with tokens := tokens ++ [⟨false, none⟩] } = exchangedBy { w with tokens } := by
  funext n
  dsimp only [exchangedBy]
  rw [List.getElem?_append]
  split
  · rfl
  · rename_i hle
    rw [List.getElem?_eq_none (Nat.le_of_not_lt hle)]
    cases hrow : ([⟨false, none⟩] : List ServerToken)[n - tokens.length]? with
    | none => rfl
    | some =>
      obtain rfl := List.mem_singleton.mp (List.mem_of_getElem? hrow)
      rfl

theorem BrowserInv.exchange {valid : Bool} {user : User} {accessToken tokenType : String}
    {expiresIn : ℤ} (hinv : BrowserInv w) (hget : w.refreshes r = some request)
    (hnone : request.answer = none) :
    BrowserInv (w.refreshTokens r valid user accessToken tokenType expiresIn request) := by
  have hrejected : BrowserInv { w with
      refreshes := Function.update w.refreshes r (some { request with answer := some none }) } := by
    refine hinv.answer hget (hinv.ledger.update hget rfl rfl (Nat.le_refl _) ?_ ?_ ?_ ?_)
    · intro response ha
      rw [hnone] at ha
      cases ha
    · intro response ha
      cases ha
    · intro response hr
      have ha := hinv.ledger.settled r request response hget hr
      rw [hnone] at ha
      cases ha
    · exact fun n k hn => .inl hn
  dsimp only [Browser.refreshTokens]
  split
  · exact hrejected
  · rename_i row hrow
    split
    · exact hrejected
    · refine hinv.answer hget ?_
      have hlength : (w.tokens.set request.token
          { row with revoked := true, exchangedBy := some r } ++
            ([⟨false, none⟩] : List ServerToken)).length = w.tokens.length + 1 := by simp
      dsimp only [issueTokens]
      rw [hlength]
      refine hinv.ledger.update hget rfl rfl (Nat.le_succ _) ?_ ?_ ?_ ?_
      · intro response ha
        rw [hnone] at ha
        cases ha
      · intro response ha
        cases ha
        exact .inr ⟨by simp, Nat.lt_succ_self _⟩
      · intro response hr
        have ha := hinv.ledger.settled r request response hget hr
        rw [hnone] at ha
        cases ha
      · intro n k hn
        rw [exchangedBy_issue] at hn
        by_cases hne : n = request.token
        · subst hne
          have hlt := (hinv.ledger.sent r request hget).1
          refine .inr ⟨rfl, ?_, _, rfl⟩
          simpa [exchangedBy, hlt, eq_comm] using hn
        · refine .inl ?_
          dsimp only [exchangedBy] at hn ⊢
          rwa [List.getElem?_set_ne (Ne.symm hne)] at hn

/-- A refresh that saves what it was answered with has not been outlived. -/
theorem BrowserInv.startedAt {response : AuthTokenResponse User} (hinv : BrowserInv w)
    (hget : w.refreshes r = some request) (hresult : request.result = some (some response))
    (hholds : w.StillHolds request) : request.startedAt = w.logouts := by
  have hanswer := hinv.ledger.settled r request response hget hresult
  cases hsession : w.stored with
  | none => exact hholds.2 (by simp [hsession]) (by simp [hresult])
  | some session =>
    have hheld : session.refreshToken ∈ w.held := Option.mem_map_of_mem _ hsession
    refine hinv.ledger.current _ hheld r request hget ?_
    rcases hholds.1 session hsession with heq | ⟨refreshed, hrefreshed, heq⟩
    · exact .inl heq.symm
    · obtain rfl : response = refreshed := by simpa [hresult] using hrefreshed
      exact .inr ⟨response, hanswer, heq.symm⟩

theorem BrowserInv.resume {now : ℤ} {tab : Tab} {options : ApiRequestOptions}
    (hinv : BrowserInv w) (hget : w.refreshes r = some request) (hholds : w.StillHolds request)
    (hnext : w.resume h now tab options request = some w') : BrowserInv w' := by
  unfold Browser.resume at hnext
  split at hnext
  · cases hnext
  · rename_i response hresult
    cases hnext
    refine BrowserInv.handler (BrowserInv.buildHeaders ?_ options) (by simp)
    exact {
      promise := hinv.promise
      ledger := hinv.ledger.saveRefresh hget (hinv.ledger.settled r request response hget hresult)
        (hinv.startedAt hget hresult hholds) fun _ _ hk => hk }
  · cases hnext
    exact (hinv.clear (Nat.le_refl _)).handler (by simp)

theorem BrowserInv.loginAnswered {lost : Bool} {now : ℤ}
    {answer : Option (Option (AuthTokenResponse User))} (hinv : BrowserInv w)
    (hhandler : w.handlers h = some (.login answer))
    (hnext : w.loginAnswered h lost now answer = some w') : BrowserInv w' := by
  unfold Browser.loginAnswered at hnext
  split at hnext
  · rename_i tokens
    cases hnext
    exact {
      promise := hinv.promise
      ledger := hinv.ledger.saveLogin ⟨tokens, hhandler, rfl⟩ fun _ _ hk =>
        hk.of_update rfl (by simp) }
  · cases hnext
    exact hinv.handler (by simp)
  · cases hnext
    exact hinv.handler (by simp)
  · cases hnext

theorem BrowserInv.serveLogin {user : User} {accessToken tokenType : String} {expiresIn : ℤ}
    (hinv : BrowserInv w) :
    BrowserInv ({ w with
      tokens := (issueTokens user accessToken tokenType expiresIn w.tokens).2 }.goto h
        (.login (some (some (issueTokens user accessToken tokenType expiresIn w.tokens).1)))) where
  promise := hinv.promise
  ledger := by
    have hlength : (w.tokens ++ ([⟨false, none⟩] : List ServerToken)).length =
        w.tokens.length + 1 := by simp
    have hpending : ∀ k n, LoginPending (({ w with
        tokens := (issueTokens user accessToken tokenType expiresIn w.tokens).2 }).goto h
          (.login (some (some (issueTokens user accessToken tokenType expiresIn w.tokens).1))))
            k n →
            w.LoginPending k n ∨ k = h ∧ n = w.tokens.length := by
      rintro k n ⟨response, hk, rfl⟩
      obtain ⟨rfl, heq⟩ | ⟨-, hk⟩ := StepSystem.of_update_some hk
      · cases heq
        exact .inr ⟨rfl, rfl⟩
      · exact .inl ⟨response, hk, rfl⟩
    have hledger := hinv.ledger.answerLogin hpending
    dsimp only [issueTokens, goto] at hledger ⊢
    rw [hlength]
    exact hledger.shrink (.inl ⟨rfl, rfl⟩) (fun _ _ hk => hk) exchangedBy_issue

theorem BrowserInv.revoke (hinv : BrowserInv w) (token : ℕ) : BrowserInv (w.revoke token) := by
  unfold Browser.revoke
  split
  · exact hinv
  · rename_i row hrow
    refine hinv.quiet rfl rfl (by simp) ?_ (.inl ⟨rfl, rfl⟩) fun _ _ hk => hk
    funext n
    dsimp only [exchangedBy]
    rw [List.getElem?_set]
    split
    · rename_i heq
      subst heq
      split
      · rw [hrow]
        rfl
      · rename_i hlt
        rw [List.getElem?_eq_none (Nat.le_of_not_lt hlt)]
    · rfl

/-- The step saves a session with the token: one that a refresh or a login was answered with. -/
def Saves (w : Browser Tab User) (action : BrowserAction Tab User) (n : ℕ) : Prop :=
  (∃ h now r request response, action = .resume h now ∧ w.Awaits h r request ∧
    request.result = some (some response) ∧ response.refreshToken = n) ∨
  ∃ h now response, action = .loginAnswered h false now ∧
    w.handlers h = some (.login (some (some response))) ∧ response.refreshToken = n

@[simp] theorem held_goto (handler : Handler Tab User) : (w.goto h handler).held = w.held := rfl

@[simp] theorem held_buildHeaders (options : ApiRequestOptions) :
    (w.buildHeaders options).held = w.held := by
  unfold Browser.buildHeaders
  split
  · simp [held, stored]
  · rfl

/-- What the condition says of a refresh that goes on. -/
theorem Unchanged.stillHolds {now : ℤ} (hunchanged : w.Unchanged (.resume h now))
    (hawaits : w.Awaits h r request) : w.StillHolds request := by
  obtain ⟨tab, options, hhandler, hget⟩ := hawaits
  refine hunchanged request ?_
  dsimp only [awaited]
  rw [hhandler]
  exact hget

/-- A step that saves a session saves none that is older than the one in the storage. -/
theorem Saves.le {action : BrowserAction Tab User} {n m : ℕ} (hinv : BrowserInv w)
    (hunchanged : w.Unchanged action) (hsaves : w.Saves action n) (hheld : m ∈ w.held) :
    m ≤ n := by
  obtain ⟨session, hsession, rfl⟩ := Option.map_eq_some_iff.mp hheld
  rcases hsaves with ⟨h, now, r, request, response, rfl, hawaits, hresult, rfl⟩ |
    ⟨h, now, response, rfl, hhandler, rfl⟩
  · have hget := hawaits.choose_spec.choose_spec.2
    have hholds := hunchanged.stillHolds hawaits
    have hanswer := hinv.ledger.settled r request response hget hresult
    have hlt := (hinv.ledger.answered r request response hget hanswer).1
    rcases hholds.1 session hsession with heq | ⟨refreshed, hrefreshed, heq⟩
    · omega
    · obtain rfl : response = refreshed := by simpa [hresult] using hrefreshed
      exact Nat.le_of_eq heq
  · refine hunchanged rfl response ?_ session hsession
    dsimp only [loginAnswer]
    rw [hhandler]
    rfl

theorem begin_eq_some {next : Option (Browser Tab User)} (hnext : w.begin h next = some w') :
    w.handlers h = none ∧ next = some w' := by
  unfold begin at hnext
  split at hnext
  · rename_i hnone
    exact ⟨hnone, hnext⟩
  · cases hnext

variable [DecidableEq Tab]

theorem BrowserInv.refreshSession {tab : Tab} {options : ApiRequestOptions} (hinv : BrowserInv w)
    (hnext : w.refreshSession h tab options r = some w') : BrowserInv w' := by
  have hread : BrowserInv { w with item := (TokenStore.getRefreshToken w.item).2 } :=
    hinv.item (by rw [TokenStore.session?_getRefreshToken]; rfl)
  dsimp only [Browser.refreshSession] at hnext
  split at hnext
  · cases hnext
    exact (hread.clear (Nat.le_refl _)).handler (by simp)
  · rename_i token htoken
    have hheld : w.held = some token := by
      rw [← htoken, TokenStore.getRefreshToken_fst]
      rfl
    split at hnext
    · cases hnext
      exact hread.handler (by simp)
    · rename_i hidle
      split at hnext
      · rename_i hnew
        cases hnext
        refine BrowserInv.handler ?_ (by simp)
        constructor
        · intro tab' r'
          by_cases htab : tab' = tab
          · subst htab
            simp only [InFlight, Function.update_self, Option.some.injEq]
            constructor
            · rintro rfl
              exact ⟨_, ⟨Function.update_self .., rfl⟩, rfl⟩
            · rintro ⟨request, ⟨hget, hresult⟩, htab⟩
              obtain ⟨rfl, -⟩ | ⟨-, hget⟩ := StepSystem.of_update_some hget
              · rfl
              · have hpromise := (hinv.promise tab' r').mpr ⟨request, ⟨hget, hresult⟩, htab⟩
                rw [hidle] at hpromise
                cases hpromise
          · simp only [InFlight, Function.update_of_ne htab]
            rw [hinv.promise tab' r']
            constructor
            · rintro ⟨request, ⟨hget, hresult⟩, rfl⟩
              have hne : r' ≠ r := by
                rintro rfl
                rw [hnew] at hget
                cases hget
              exact ⟨request, ⟨by rw [Function.update_of_ne hne, hget], hresult⟩, rfl⟩
            · rintro ⟨request, ⟨hget, hresult⟩, rfl⟩
              obtain ⟨rfl, rfl⟩ | ⟨-, hget⟩ := StepSystem.of_update_some hget
              · exact absurd rfl htab
              · exact ⟨request, ⟨hget, hresult⟩, rfl⟩
        · have hledger := hread.ledger
          have hsame : (TokenStore.session? (TokenStore.getRefreshToken w.item).2).map
              (·.refreshToken) = some token := by
            rw [TokenStore.session?_getRefreshToken]
            exact hheld
          dsimp only [held, stored] at hledger ⊢
          rw [hsame] at hledger ⊢
          exact hledger.start hnew
      · cases hnext

theorem BrowserInv.settleRefresh {lost : Bool} (hinv : BrowserInv w)
    (hget : w.refreshes r = some request) (hnext : w.settleRefresh r lost request = some w') :
    BrowserInv w' := by
  have hsettled : ∀ result, request.result = none →
      (∀ response, result = some response → request.answer = some (some response)) →
      BrowserInv { w with
        refreshes := Function.update w.refreshes r (some { request with result := some result })
        refreshPromise := Function.update w.refreshPromise request.tab none } := by
    intro result hnone hanswered
    have hpromise := (hinv.promise request.tab r).mpr ⟨request, ⟨hget, hnone⟩, rfl⟩
    constructor
    · intro tab r'
      dsimp only [InFlight]
      by_cases htab : tab = request.tab
      · subst htab
        rw [Function.update_self]
        constructor
        · intro hr
          cases hr
        · rintro ⟨request', ⟨hget', hresult⟩, htab⟩
          obtain ⟨rfl, rfl⟩ | ⟨hne, hget'⟩ := StepSystem.of_update_some hget'
          · cases hresult
          · have hpromise' := (hinv.promise request.tab r').mpr ⟨request', ⟨hget', hresult⟩, htab⟩
            exact absurd (Option.eq_some_unique hpromise' hpromise) hne
      · rw [Function.update_of_ne htab, hinv.promise tab r']
        constructor
        · rintro ⟨request', ⟨hget', hresult⟩, rfl⟩
          have hne : r' ≠ r := by
            rintro rfl
            exact htab (by rw [Option.eq_some_unique hget' hget])
          exact ⟨request', ⟨by rw [Function.update_of_ne hne, hget'], hresult⟩, rfl⟩
        · rintro ⟨request', ⟨hget', hresult⟩, rfl⟩
          obtain ⟨rfl, rfl⟩ | ⟨-, hget'⟩ := StepSystem.of_update_some hget'
          · exact absurd rfl htab
          · exact ⟨request', ⟨hget', hresult⟩, rfl⟩
    · refine hinv.ledger.update hget rfl rfl (Nat.le_refl _) (fun _ ha => ha)
        (fun _ ha => .inl ha) ?_ fun _ _ hn => .inl hn
      intro response hr
      exact hanswered response (Option.some.inj hr)
  unfold Browser.settleRefresh at hnext
  split at hnext
  · cases hnext
  · rename_i answer hnone hanswer
    cases hnext
    refine hsettled _ hnone fun response hresult => ?_
    split at hresult
    · cases hresult
    · rw [hanswer, hresult]
  · rename_i hnone hanswer
    split at hnext
    · cases hnext
      exact hsettled none hnone fun _ hresult => by cases hresult
    · cases hnext

/-- **Step.** -/
theorem BrowserInv.step {action : BrowserAction Tab User} (hinv : BrowserInv w)
    (hunchanged : w.Unchanged action) (hnext : w.step action = some w') : BrowserInv w' := by
  cases action with
  | fetch h tab options =>
    obtain ⟨-, hnext⟩ := begin_eq_some hnext
    cases hnext
    exact (hinv.buildHeaders options).handler (by simp)
  | respond =>
    dsimp only [Browser.step] at hnext
    split at hnext
    · unfold Browser.respond at hnext
      split at hnext
      · exact hinv.refreshSession hnext
      · cases hnext
        exact hinv.handler (by simp)
    · cases hnext
  | serveRefresh =>
    dsimp only [Browser.step] at hnext
    split at hnext
    · rename_i request hget
      split at hnext
      · rename_i hnone
        cases hnext
        exact hinv.exchange hget hnone
      · cases hnext
    · cases hnext
  | settleRefresh =>
    obtain ⟨request, hget, hnext⟩ := Option.bind_eq_some_iff.mp hnext
    exact hinv.settleRefresh hget hnext
  | resume =>
    dsimp only [Browser.step] at hnext
    split at hnext
    · rename_i tab options r hhandler
      obtain ⟨request, hget, hnext⟩ := Option.bind_eq_some_iff.mp hnext
      exact hinv.resume hget (hunchanged.stillHolds ⟨tab, options, hhandler, hget⟩) hnext
    · cases hnext
  | login =>
    obtain ⟨-, hnext⟩ := begin_eq_some hnext
    cases hnext
    exact hinv.handler (by simp)
  | serveLogin =>
    dsimp only [Browser.step] at hnext
    split at hnext
    · split at hnext
      · cases hnext
        exact hinv.serveLogin
      · cases hnext
        exact hinv.handler (by simp)
    · cases hnext
  | loginAnswered =>
    dsimp only [Browser.step] at hnext
    split at hnext
    · rename_i answer hhandler
      exact hinv.loginAnswered hhandler hnext
    · cases hnext
  | logout =>
    obtain ⟨-, hnext⟩ := begin_eq_some hnext
    split at hnext
    · cases hnext
      exact hinv.clear (Nat.le_succ _)
    · rename_i token item hread
      cases hnext
      refine BrowserInv.handler (hinv.item ?_) (by simp)
      have hsame : TokenStore.session? (TokenStore.getRefreshToken w.item).2 =
          TokenStore.session? w.item := TokenStore.session?_getRefreshToken
      rw [hread] at hsame
      dsimp only at hsame
      rw [hsame]
      rfl
  | serveLogout =>
    dsimp only [Browser.step] at hnext
    split at hnext
    · cases hnext
      exact hinv.revoke _
    · cases hnext
  | logoutAnswered =>
    dsimp only [Browser.step] at hnext
    split at hnext
    · cases hnext
      exact (hinv.clear (Nat.le_succ _)).handler (by simp)
    · cases hnext
  | updateUser =>
    cases hnext
    refine hinv.item ?_
    rw [TokenStore.session?_updateUser, Option.map_map]
    rfl

/-! ### What a step writes -/

theorem held_refreshSession {tab : Tab} {options : ApiRequestOptions}
    (hnext : w.refreshSession h tab options r = some w') : w'.held = w.held ∨ w'.held = none := by
  have hread : held { w with item := (TokenStore.getRefreshToken w.item).2 } = w.held := by
    simp [held, stored]
  dsimp only [Browser.refreshSession] at hnext
  split at hnext
  · cases hnext
    exact .inr rfl
  · split at hnext
    · cases hnext
      exact .inl hread
    · split at hnext
      · cases hnext
        exact .inl hread
      · cases hnext

/-- A step leaves the session in the storage alone, removes it, or saves one that a refresh or a
login was answered with. -/
theorem held_of_step {action : BrowserAction Tab User} (hnext : w.step action = some w') :
    w'.held = w.held ∨ w'.held = none ∨ ∃ n, w.Saves action n ∧ w'.held = some n := by
  -- only a refresh, a sign-in and a sign-out write the stored session
  cases action with
  | fetch =>
    obtain ⟨-, hnext⟩ := begin_eq_some hnext
    cases hnext
    exact .inl (by simp)
  | respond =>
    dsimp only [Browser.step] at hnext
    split at hnext
    · unfold Browser.respond at hnext
      split at hnext
      · exact (held_refreshSession hnext).imp_right .inl
      · cases hnext
        exact .inl rfl
    · cases hnext
  | serveRefresh =>
    dsimp only [Browser.step] at hnext
    split at hnext
    · split at hnext
      · cases hnext
        unfold Browser.refreshTokens
        split
        · exact .inl rfl
        · split <;> exact .inl rfl
      · cases hnext
    · cases hnext
  | settleRefresh =>
    obtain ⟨request, hget, hnext⟩ := Option.bind_eq_some_iff.mp hnext
    unfold Browser.settleRefresh at hnext
    split at hnext
    · cases hnext
    · cases hnext
      exact .inl rfl
    · split at hnext
      · cases hnext
        exact .inl rfl
      · cases hnext
  | resume h now =>
    dsimp only [Browser.step] at hnext
    split at hnext
    · rename_i tab options r hhandler
      obtain ⟨request, hget, hnext⟩ := Option.bind_eq_some_iff.mp hnext
      unfold Browser.resume at hnext
      split at hnext
      · cases hnext
      · rename_i response hresult
        cases hnext
        refine .inr (.inr ⟨response.refreshToken, .inl ⟨h, now, r, request, response, rfl,
          ⟨tab, options, hhandler, hget⟩, hresult, rfl⟩, ?_⟩)
        rw [held_goto, held_buildHeaders]
        rfl
      · cases hnext
        exact .inr (.inl rfl)
    · cases hnext
  | login =>
    obtain ⟨-, hnext⟩ := begin_eq_some hnext
    cases hnext
    exact .inl rfl
  | serveLogin =>
    dsimp only [Browser.step] at hnext
    split at hnext
    · split at hnext <;>
        · cases hnext
          exact .inl rfl
    · cases hnext
  | loginAnswered h lost now =>
    dsimp only [Browser.step] at hnext
    split at hnext
    · rename_i answer hhandler
      unfold Browser.loginAnswered at hnext
      split at hnext
      · rename_i response
        cases hnext
        exact .inr (.inr ⟨response.refreshToken,
          .inr ⟨h, now, response, rfl, hhandler, rfl⟩, rfl⟩)
      · cases hnext
        exact .inl rfl
      · cases hnext
        exact .inl rfl
      · cases hnext
    · cases hnext
  | logout =>
    obtain ⟨-, hnext⟩ := begin_eq_some hnext
    split at hnext
    · cases hnext
      exact .inr (.inl rfl)
    · rename_i token item hread
      cases hnext
      have hsame : TokenStore.session? (TokenStore.getRefreshToken w.item).2 =
          TokenStore.session? w.item := TokenStore.session?_getRefreshToken
      rw [hread] at hsame
      dsimp only at hsame
      refine .inl ?_
      simp [held, stored, goto, hsame]
  | serveLogout =>
    dsimp only [Browser.step] at hnext
    split at hnext
    · cases hnext
      unfold Browser.revoke
      split <;> exact .inl rfl
    · cases hnext
  | logoutAnswered =>
    dsimp only [Browser.step] at hnext
    split at hnext
    · cases hnext
      exact .inr (.inl rfl)
    · cases hnext
  | updateUser =>
    cases hnext
    refine .inl ?_
    dsimp only [held, stored]
    rw [TokenStore.session?_updateUser, Option.map_map]
    rfl

/-- A step that meets the condition is safe. -/
theorem BrowserInv.safeStep {action : BrowserAction Tab User} (hinv : BrowserInv w)
    (hunchanged : w.Unchanged action) (hnext : w.step action = some w') :
    SafeStep w action w' where
  afterLogout h now r request haction hawaits hlt := by
    subst haction
    have hholds := hunchanged.stillHolds hawaits
    obtain ⟨tab, options, hhandler, hget⟩ := hawaits
    dsimp only [Browser.step] at hnext
    simp only [hhandler, hget, Option.bind_some] at hnext
    unfold Browser.resume at hnext
    split at hnext
    · cases hnext
    · rename_i response hresult
      have := hinv.startedAt hget hresult hholds
      omega
    · cases hnext
      exact .inl rfl
  otherTab h now r request row r' request' response haction hawaits hfailed hrow hexchanged hget' _
      hanswer' session hsession hle := by
    subst haction
    have hholds := hunchanged.stillHolds hawaits
    have hby : w.exchangedBy request.token = some r' := by
      unfold exchangedBy
      rw [hrow]
      exact hexchanged
    obtain ⟨request'', response', hget'', htoken, hanswer⟩ := hinv.ledger.exchanged _ _ hby
    obtain rfl : request' = request'' := Option.eq_some_unique hget' hget''
    obtain rfl : response = response' := by
      rw [hanswer'] at hanswer
      cases hanswer
      rfl
    have hlt := (hinv.ledger.answered r' request' response hget' hanswer').1
    -- the storage holds the token that was sent, which is older than what it was exchanged for
    rcases hholds.1 session hsession with heq | ⟨refreshed, hrefreshed, -⟩
    · omega
    · simp [hfailed] at hrefreshed
  newer session hsession session' hsession' := by
    have hheld : session.refreshToken ∈ w.held := Option.mem_map_of_mem _ hsession
    have hheld' : session'.refreshToken ∈ w'.held := Option.mem_map_of_mem _ hsession'
    rcases held_of_step hnext with hsame | hnone | ⟨n, hsaves, hsome⟩
    · rw [hsame] at hheld'
      exact Nat.le_of_eq (Option.mem_unique hheld hheld')
    · rw [hnone] at hheld'
      cases hheld'
    · rw [hsome] at hheld'
      cases hheld'
      exact hsaves.le hinv hunchanged hheld

/-- Whatever the step leads to, it is safe. -/
def Safe (w : Browser Tab User) (action : BrowserAction Tab User) : Prop :=
  ∀ w', w.step action = some w' → SafeStep w action w'

/-- **Sessions, when nothing has changed in the meantime.** In every run of the browser in which a
handler that writes the storage finds it as it left it, a client has at most one refresh in flight,
no refresh writes a session after a logout, one that fails removes no session of another tab, and no
session is overwritten by an older one. -/
theorem sessions_safe_of_unchanged {w₀ : Browser Tab User} {actions : List (BrowserAction Tab User)}
    (hopened : w₀.Opened) (hunchanged : StepSystem.Along step Unchanged w₀ actions)
    (hrun : StepSystem.run step w₀ actions = some w) :
    w.OneRefresh ∧ StepSystem.Along step Safe w₀ actions := by
  have hstep : ∀ (w : Browser Tab User) action w', BrowserInv w → w.Unchanged action →
      w.step action = some w' → BrowserInv w' :=
    fun w action w' hinv hunchanged hnext => hinv.step hunchanged hnext
  constructor
  · exact (StepSystem.run_invariant_along hstep hopened.inv hunchanged hrun).oneRefresh
  · exact StepSystem.along_of_invariant hstep
      (fun w action hinv hunchanged w' hnext => hinv.safeStep hunchanged hnext) hopened.inv
        hunchanged

/-- A browser in which nobody has signed in. -/
def empty : Browser ℕ Unit where
  item := none
  refreshPromise _ := none
  refreshes _ := none
  handlers _ := none
  tokens := []
  logouts := 0

theorem opened_empty : empty.Opened where
  idle _ := rfl
  refreshes _ := rfl
  handlers _ := rfl
  issued _ h := by cases h
  exchanged _ h := by cases h
  logouts := rfl

/-- A user signs in. -/
def signIn (h : ℕ) : List (BrowserAction ℕ Unit) :=
  [.login h, .serveLogin h true () "access" "bearer" 60, .loginAnswered h false 0]

/-- A request of a tab is answered with a 401, and a refresh is sent for it. -/
def expires (h tab r : ℕ) : List (BrowserAction ℕ Unit) :=
  [.fetch h tab ⟨true, true⟩, .respond h true r]

/-- The refresh is answered, and the handler goes on. -/
def refreshed (h r : ℕ) : List (BrowserAction ℕ Unit) :=
  [.serveRefresh r true () "access" "bearer" 60, .settleRefresh r false, .resume h 60000]

/-- One tab, whose access token expires, and which goes on. -/
def oneRefresh : List (BrowserAction ℕ Unit) :=
  signIn 0 ++ expires 1 7 0 ++ refreshed 1 0 ++ [.respond 1 false 1]

theorem sessions_safe_of_unchanged_oneRefresh :
    ∃ w, StepSystem.run step empty oneRefresh = some w ∧ w.held = some 1 ∧ w.OneRefresh ∧
      StepSystem.Along step Safe empty oneRefresh := by
  obtain ⟨w, hrun, hheld⟩ : ∃ w, StepSystem.run step empty oneRefresh = some w ∧
      w.held = some 1 := StepSystem.exists_run (by decide +kernel)
  exact ⟨w, hrun, hheld, sessions_safe_of_unchanged opened_empty (by decide +kernel) hrun⟩

/-- A refresh is under way while the user logs out. -/
def logoutOvertakes : List (BrowserAction ℕ Unit) :=
  signIn 0 ++ expires 1 7 0 ++ [.serveRefresh 0 true () "access" "bearer" 60, .logout 2,
    .serveLogout 2, .logoutAnswered 2, .settleRefresh 0 false]

/-- Two tabs send the same token; the one that is refused goes on last. -/
def otherTabOvertakes : List (BrowserAction ℕ Unit) :=
  signIn 0 ++ expires 1 7 0 ++ expires 2 8 1 ++ refreshed 1 0 ++
    [.serveRefresh 1 true () "access" "bearer" 60, .settleRefresh 1 false]

/-- Two tabs log in; the answer to the later login arrives first. -/
def loginOvertakes : List (BrowserAction ℕ Unit) :=
  [.login 0, .login 1, .serveLogin 0 true () "access" "bearer" 60,
    .serveLogin 1 true () "access" "bearer" 60, .loginAnswered 1 false 0]

/-- The refresh signs the user in again; the tab that was refused signs out the other one; and the
older session replaces the newer one. -/
theorem overtaken_not_safe :
    ¬StepSystem.Along step Safe empty (logoutOvertakes ++ [.resume 1 60000]) ∧
    ¬StepSystem.Along step Safe empty (otherTabOvertakes ++ [.resume 2 60000]) ∧
    ¬StepSystem.Along step Safe empty (loginOvertakes ++ [.loginAnswered 0 false 0]) := by
  refine ⟨fun hsafe => ?_, fun hsafe => ?_, fun hsafe => ?_⟩
  · obtain ⟨w, hrun, hnone, hlogouts, ⟨w', hlast, hheld⟩, hhandler, request, hget, hstarted⟩ :
        ∃ w, StepSystem.run step empty logoutOvertakes = some w ∧ w.stored = none ∧ w.logouts = 1 ∧
          (∃ w' ∈ w.step (.resume 1 60000), w'.stored ≠ none) ∧
          w.handlers 1 = some (.refreshing 7 ⟨true, true⟩ 0) ∧
            ∃ request ∈ w.refreshes 0, request.startedAt = 0 :=
      StepSystem.exists_run (by decide +kernel)
    rcases (hsafe.last hrun w' hlast).afterLogout 1 60000 0 request rfl
      ⟨7, ⟨true, true⟩, hhandler, hget⟩ (by omega) with hstored | hstored
    · exact hheld hstored
    · exact hheld (hstored.trans hnone)
  · obtain ⟨w, hrun, ⟨w', hlast, hnone⟩, hhandler, ⟨request, hget, htab, hresult, row, hrow,
        hexchanged⟩, ⟨request', hget', htab', hanswer⟩, session, hsession, hle⟩ :
        ∃ w, StepSystem.run step empty otherTabOvertakes = some w ∧
          (∃ w' ∈ w.step (.resume 2 60000), w'.stored = none) ∧
          w.handlers 2 = some (.refreshing 8 ⟨true, true⟩ 1) ∧
          (∃ request ∈ w.refreshes 1, request.tab = 8 ∧ request.result = some none ∧
            ∃ row ∈ w.tokens[request.token]?, row.exchangedBy = some 0) ∧
          (∃ request ∈ w.refreshes 0, request.tab = 7 ∧
            request.answer = some (some ⟨(), "access", 1, "bearer", 60⟩)) ∧
          ∃ session ∈ w.stored, 1 ≤ session.refreshToken :=
      StepSystem.exists_run (by decide +kernel)
    have hkept := (hsafe.last hrun w' hlast).otherTab 2 60000 1 request row 0 request'
      ⟨(), "access", 1, "bearer", 60⟩ rfl ⟨8, ⟨true, true⟩, hhandler, hget⟩ hresult hrow hexchanged
        hget' (by rw [htab, htab']; decide) hanswer session hsession hle
    rw [hnone] at hkept
    cases hkept
  · obtain ⟨w, hrun, ⟨session, hsession, hnew⟩, w', hlast, session', hsession', hold⟩ :
        ∃ w, StepSystem.run step empty loginOvertakes = some w ∧
          (∃ session ∈ w.stored, session.refreshToken = 1) ∧
          ∃ w' ∈ w.step (.loginAnswered 0 false 0), ∃ session ∈ w'.stored,
            session.refreshToken = 0 := StepSystem.exists_run (by decide +kernel)
    have hle := (hsafe.last hrun w' hlast).newer session hsession session' hsession'
    omega

end Browser

end IChat.Frontend
