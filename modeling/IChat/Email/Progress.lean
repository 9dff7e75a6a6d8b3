import IChat.Email.Outbox
import IChat.Email.Renderer

/-!
# Progress of the email outbox

The invocations of `process_outbox` that run to their end, by a return or by an exception. Between
the claim and `bump_attempt` the message is rendered, and an exception of the renderer leaves the
row claimed with its attempt count as it was.

`progress_iff`: every invocation that claims a row and ends leaves it final, has consumed an attempt
or has lost its lease, and the row is claimed at most once more than the budget as long as no lease
runs out before its attempt is counted (`InTime`), exactly when the row can be rendered. An
invocation that loses its lease consumes nothing: `slowInvocations_claimed` is a run of a row that
can be rendered, claimed oftener than the budget allows.
-/

namespace IChat.Email

/-- The row with its invocations. The lists hold the task ids that have claimed the row, those that
have found at their end that they do not hold the lease, and those that have ended the row because
its budget was used up. -/
structure ProcessWorld where
  outbox : OutboxWorld
  claims : List ℕ
  lost : List ℕ
  closed : List ℕ

inductive ProcessAction
  | claim (taskId now : ℕ)
  | markExhausted (taskId now : ℕ)
  /-- `render` raises. -/
  | renderRaises (taskId now : ℕ)
  /-- `render` returns, and `bump_attempt` is called. -/
  | bump (taskId now : ℕ)
  | send (taskId : ℕ)
  | answer (taskId : ℕ) (outcome : SendOutcome)
  /-- `provider.send` raises something else than an `EmailSendError`. -/
  | sendRaises (taskId : ℕ)
  | record (taskId now : ℕ)
  | sweep (now : ℕ)

namespace ProcessWorld

def init (nextAttemptAt : ℕ) : ProcessWorld := ⟨.init nextAttemptAt, [], [], []⟩

/-- The invocations that have lost their lease, when a transaction looks for it. -/
def lostAt (w : ProcessWorld) (taskId now : ℕ) : List ℕ :=
  if HoldsLease taskId now w.outbox.row then w.lost else w.lost ++ [taskId]

/-- One step of an invocation for a row with a template and a payload, or a sweep. -/
def step (s : OutboxSettings) (template : String) (payload : Dict) (w : ProcessWorld) :
    ProcessAction → Option ProcessWorld
  | .claim taskId now =>
    (w.outbox.step s (.claim taskId now)).map fun outbox =>
      match claimOutbox s taskId now w.outbox.row with
      | none => { w with outbox }
      | some _ => { w with outbox, claims := w.claims ++ [taskId] }
  | .markExhausted taskId now =>
    (w.outbox.step s (.markExhausted taskId now)).map fun outbox =>
      { w with
        outbox
        lost := w.lostAt taskId now
        closed := if HoldsLease taskId now w.outbox.row then w.closed ++ [taskId] else w.closed }
  | .renderRaises taskId now =>
    match w.outbox.invocations taskId, render template payload with
    | .claimed _, none =>
      (w.outbox.step s (.crash taskId)).map fun outbox =>
        { w with outbox, lost := w.lostAt taskId now }
    | _, _ => none
  | .bump taskId now =>
    match render template payload with
    | some _ =>
      (w.outbox.step s (.bump taskId now)).map fun outbox =>
        { w with outbox, lost := w.lostAt taskId now }
    | none => none
  | .send taskId => (w.outbox.step s (.send taskId)).map fun outbox => { w with outbox }
  | .answer taskId outcome =>
    (w.outbox.step s (.answer taskId outcome)).map fun outbox => { w with outbox }
  | .sendRaises taskId =>
    match w.outbox.invocations taskId with
    | .sending => (w.outbox.step s (.crash taskId)).map fun outbox => { w with outbox }
    | _ => none
  | .record taskId now =>
    (w.outbox.step s (.record taskId now)).map fun outbox => { w with outbox }
  | .sweep now => (w.outbox.step s (.sweep now)).map fun outbox => { w with outbox }

end ProcessWorld

/-- The invocation has claimed the row, and its attempt is not counted yet. -/
def InvocationPhase.IsUncounted : InvocationPhase → Prop
  | .exhausted | .claimed _ => True
  | _ => False

instance : ∀ phase : InvocationPhase, Decidable phase.IsUncounted
  | .exhausted | .claimed _ => isTrue trivial
  | .fresh | .bumped | .sending | .answered _ | .finished => isFalse id

def InvocationPhase.IsFinished : InvocationPhase → Prop
  | .finished => True
  | _ => False

/-- An invocation that has claimed the row ends with the row final, an attempt consumed or its lease
lost. -/
def MakesProgress (s : OutboxSettings) (template : String) (payload : Dict) (w : ProcessWorld)
    (a : ProcessAction) : Prop :=
  ∀ w', w.step s template payload a = some w' →
    ∀ taskId ∈ w.claims, ¬(w.outbox.invocations taskId).IsFinished →
      (w'.outbox.invocations taskId).IsFinished →
        (w'.outbox.row.status = .sent ∨ w'.outbox.row.status = .dead) ∨
          taskId ∈ w'.outbox.bumps ∨ taskId ∈ w'.lost

/-- The invocation has not lost its lease before its attempt was counted. -/
def KeptLease (w : ProcessWorld) (taskId : ℕ) : Prop :=
  taskId ∉ w.lost ∧
    ((w.outbox.invocations taskId).IsUncounted → w.outbox.row.lockedBy = some taskId)

instance (w : ProcessWorld) (taskId : ℕ) : Decidable (KeptLease w taskId) :=
  inferInstanceAs (Decidable (_ ∧ (_ → _)))

/-- The lease of an invocation lasts until its attempt is counted, or until it ends a row whose
budget is used up. -/
def InTime (w : ProcessWorld) : ProcessAction → Prop
  | .bump taskId now | .markExhausted taskId now => HoldsLease taskId now w.outbox.row
  | .sweep now =>
    (∃ t ∈ w.outbox.row.lockedUntil, t < now) →
      ∀ taskId ∈ w.outbox.row.lockedBy, ¬(w.outbox.invocations taskId).IsUncounted
  | _ => True

instance (w : ProcessWorld) : ∀ a, Decidable (InTime w a)
  | .bump .. | .markExhausted .. => inferInstanceAs (Decidable (HoldsLease _ _ _))
  | .sweep _ => inferInstanceAs (Decidable (_ → ∀ taskId ∈ w.outbox.row.lockedBy, _))
  | .claim .. | .renderRaises .. | .send _ | .answer .. | .sendRaises _ | .record .. =>
    inferInstanceAs (Decidable True)

/-! ### Frames of the steps of an invocation -/

/-- The invocation that takes a step. -/
def OutboxAction.taskId? : OutboxAction → Option ℕ
  | .claim taskId _ | .markExhausted taskId _ | .bump taskId _ | .send taskId | .answer taskId _
  | .record taskId _ | .crash taskId => some taskId
  | .sweep _ => none

section frame

variable {s : OutboxSettings} {w w' : OutboxWorld} {a : OutboxAction}

/-- A step changes the phase of its own invocation, to another than the first, and forgets no
attempt. -/
theorem OutboxWorld.frame_of_step (h : w.step s a = some w') :
    (∀ id, a.taskId? ≠ some id → w'.invocations id = w.invocations id) ∧
      (∀ id, w'.invocations id = .fresh → w.invocations id = .fresh) ∧
      ∀ id ∈ w.bumps, id ∈ w'.bumps := by
  have hgoto : ∀ (v : OutboxWorld) (taskId : ℕ) (phase : InvocationPhase), phase ≠ .fresh →
      v.invocations = w.invocations → (∀ id ∈ w.bumps, id ∈ v.bumps) →
      (∀ id, some taskId ≠ some id → (v.goto taskId phase).invocations id = w.invocations id) ∧
        (∀ id, (v.goto taskId phase).invocations id = .fresh → w.invocations id = .fresh) ∧
        ∀ id ∈ w.bumps, id ∈ (v.goto taskId phase).bumps := by
    intro v taskId phase hphase hsame hbumps
    refine ⟨fun id hid => ?_, fun id hfresh => ?_, hbumps⟩
    · rw [invocations_goto_of_ne _ (fun heq => hid (congrArg some heq.symm)), hsame]
    · by_cases hid : id = taskId
      · rw [hid, invocations_goto_self] at hfresh
        exact absurd hfresh hphase
      · rw [invocations_goto_of_ne _ hid, hsame] at hfresh
        exact hfresh
  cases a with
  | claim taskId =>
    dsimp only [OutboxWorld.step] at h
    split at h
    · split at h
      · cases h
        exact hgoto w taskId _ nofun rfl fun _ h => h
      · cases h
        refine hgoto _ taskId _ ?_ rfl fun _ h => h
        split <;> nofun
    · cases h
  | markExhausted taskId | send taskId | record taskId =>
    dsimp only [OutboxWorld.step] at h
    split at h <;> cases h
    exact hgoto _ taskId _ nofun rfl fun _ h => h
  | bump taskId =>
    dsimp only [OutboxWorld.step] at h
    split at h
    · split at h
      · cases h
        exact hgoto w taskId _ nofun rfl fun _ h => h
      · cases h
        exact hgoto _ taskId _ nofun rfl fun _ h => List.mem_append_left _ h
    · cases h
  | answer taskId =>
    dsimp only [OutboxWorld.step] at h
    split at h <;> cases h
    exact hgoto w taskId _ nofun rfl fun _ h => h
  | crash taskId =>
    cases h
    exact hgoto w taskId _ nofun rfl fun _ h => h
  | sweep =>
    cases h
    exact ⟨fun _ _ => rfl, fun _ h => h, fun _ h => h⟩

/-- An invocation that has yet to count its attempt has just claimed the row, or it did not act. -/
theorem OutboxWorld.uncounted_of_step (h : w.step s a = some w') {id : ℕ}
    (huncounted : (w'.invocations id).IsUncounted) :
    (∃ now, a = .claim id now ∧ w.row.status = .pending ∧ w'.row.lockedBy = some id) ∨
      a.taskId? ≠ some id ∧ (w.invocations id).IsUncounted := by
  by_cases hacts : a.taskId? = some id
  · left
    have hended : ∀ (v : OutboxWorld) (phase : InvocationPhase), ¬phase.IsUncounted →
        ¬((v.goto id phase).invocations id).IsUncounted := by
      intro v phase hphase
      rwa [invocations_goto_self]
    cases a with
    | claim taskId now =>
      obtain rfl := Option.some.inj hacts
      dsimp only [OutboxWorld.step] at h
      split at h
      · split at h
        · cases h
          exact absurd huncounted (hended w _ id)
        · rename_i row hclaim
          cases h
          rw [claimOutbox] at hclaim
          split_ifs at hclaim with hdue
          cases hclaim
          exact ⟨now, rfl, hdue.1, rfl⟩
      · cases h
    | markExhausted | send | answer | record =>
      obtain rfl := Option.some.inj hacts
      dsimp only [OutboxWorld.step] at h
      split at h <;> cases h
      exact absurd huncounted (hended _ _ id)
    | bump =>
      obtain rfl := Option.some.inj hacts
      dsimp only [OutboxWorld.step] at h
      split at h
      · split at h <;> cases h <;> exact absurd huncounted (hended _ _ id)
      · cases h
    | crash =>
      obtain rfl := Option.some.inj hacts
      cases h
      exact absurd huncounted (hended _ _ id)
    | sweep => cases hacts
  · right
    rw [(OutboxWorld.frame_of_step h).1 id hacts] at huncounted
    exact ⟨hacts, huncounted⟩

/-- A row that somebody holds is being sent. -/
theorem RowChange.locked {row row' : EmailOutbox} (h : RowChange s row a row')
    (hlocked : row.lockedBy.isSome → row.status = .sending) :
    row'.lockedBy.isSome → row'.status = .sending := by
  cases h with
  | same => exact hlocked
  | claimed => exact fun _ => rfl
  | bumped taskId now hholds => exact fun _ => hholds.1
  | released taskId now haction hholds hcount hfree =>
    rw [hfree]
    exact nofun
  | swept => exact nofun

end frame

/-! ### The invariant -/

/-- Every claim is accounted for: by an attempt, a lost lease, the end of the row, or an invocation
that has yet to count its attempt. -/
structure ProcessInv (s : OutboxSettings) (w : ProcessWorld) : Prop where
  outbox : OutboxInv s w.outbox
  claims_nodup : w.claims.Nodup
  fresh : ∀ taskId, w.outbox.invocations taskId = .fresh → taskId ∉ w.claims
  covered : ∀ taskId ∈ w.claims, taskId ∈ w.outbox.bumps ∨ taskId ∈ w.lost ∨ taskId ∈ w.closed ∨
    (w.outbox.invocations taskId).IsUncounted
  locked : w.outbox.row.lockedBy.isSome → w.outbox.row.status = .sending
  closed_dead : w.closed ≠ [] → w.outbox.row.status = .dead
  closed_le : w.closed.length ≤ 1

theorem processInv_init (s : OutboxSettings) (nextAttemptAt : ℕ) :
    ProcessInv s (.init nextAttemptAt) where
  outbox := outboxInv_init s nextAttemptAt
  claims_nodup := List.nodup_nil
  fresh _ _ := List.not_mem_nil
  covered _ := nofun
  locked := nofun
  closed_dead h := absurd rfl h
  closed_le := Nat.zero_le 1

section invariant

variable {s : OutboxSettings} {template : String} {payload : Dict} {w w' : ProcessWorld}
  {a : OutboxAction} {outbox : OutboxWorld} {taskId now : ℕ}

/-- A step that claims nothing keeps the invariant when its invocation is accounted for. -/
theorem ProcessInv.next (h : ProcessInv s w) (hstep : w.outbox.step s a = some outbox)
    {lost closed : List ℕ} (hlost : ∀ id ∈ w.lost, id ∈ lost)
    (hclosed : ∀ id ∈ w.closed, id ∈ closed)
    (hself : ∀ id ∈ w.claims, a.taskId? = some id →
      id ∈ outbox.bumps ∨ id ∈ lost ∨ id ∈ closed ∨ (outbox.invocations id).IsUncounted)
    (hdead : closed ≠ [] → outbox.row.status = .dead) (hle : closed.length ≤ 1) :
    ProcessInv s { w with outbox, lost, closed } where
  outbox := h.outbox.step hstep
  claims_nodup := h.claims_nodup
  fresh id hfresh := h.fresh id ((OutboxWorld.frame_of_step hstep).2.1 id hfresh)
  covered := by
    obtain ⟨hothers, -, hbumps⟩ := OutboxWorld.frame_of_step hstep
    intro id hid
    by_cases hacts : a.taskId? = some id
    · exact hself id hid hacts
    · dsimp only
      rw [hothers id hacts]
      exact (h.covered id hid).imp (hbumps id) (Or.imp (hlost id) (Or.imp_left (hclosed id)))
  locked := (rowChange_of_step hstep).locked h.locked
  closed_dead := hdead
  closed_le := hle

/-- The same, when it does not end the row either. -/
theorem ProcessInv.quiet (h : ProcessInv s w) (hstep : w.outbox.step s a = some outbox)
    {lost : List ℕ} (hlost : ∀ id ∈ w.lost, id ∈ lost)
    (hself : ∀ id ∈ w.claims, a.taskId? = some id →
      id ∈ outbox.bumps ∨ id ∈ lost ∨ id ∈ w.closed ∨ (outbox.invocations id).IsUncounted) :
    ProcessInv s { w with outbox, lost } := by
  refine h.next hstep hlost (fun _ hid => hid) hself (fun hne => ?_) h.closed_le
  have hdead := h.closed_dead hne
  exact ((rowChange_of_step hstep).status_eq_of_final (Or.inr hdead)).trans hdead

/-- A claim adds an invocation that has yet to count its attempt. -/
theorem ProcessInv.addClaim (h : ProcessInv s w) (hnew : taskId ∉ w.claims)
    (hphase : (w.outbox.invocations taskId).IsUncounted) :
    ProcessInv s { w with claims := w.claims ++ [taskId] } where
  outbox := h.outbox
  claims_nodup :=
    List.nodup_append'.mpr ⟨h.claims_nodup, List.nodup_singleton _, by simpa using hnew⟩
  fresh id hfresh := by
    intro hid
    rcases List.mem_append.mp hid with hold | hself
    · exact h.fresh id hfresh hold
    · rw [List.mem_singleton.mp hself] at hfresh
      rw [hfresh] at hphase
      exact hphase
  covered id hid := by
    rcases List.mem_append.mp hid with hold | hself
    · exact h.covered id hold
    · rw [List.mem_singleton.mp hself]
      exact Or.inr (Or.inr (Or.inr hphase))
  locked := h.locked
  closed_dead := h.closed_dead
  closed_le := h.closed_le

theorem mem_lostAt {id : ℕ} (h : id ∈ w.lost) : id ∈ w.lostAt taskId now := by
  rw [ProcessWorld.lostAt]
  split
  · exact h
  · exact List.mem_append_left _ h

theorem mem_lostAt_of_not_holds (h : ¬HoldsLease taskId now w.outbox.row) :
    taskId ∈ w.lostAt taskId now := by
  rw [ProcessWorld.lostAt, if_neg h]
  exact List.mem_append_right _ (List.mem_singleton_self taskId)

/-- A row that can be rendered does not raise, and neither does a row that nobody renders, because
an invocation that renders is within its budget. -/
theorem ProcessInv.step_renderRaises (h : ProcessInv s w)
    (hrender : (render template payload).isSome ∨ s.maxAttempts = 0) :
    w.step s template payload (.renderRaises taskId now) = none := by
  dsimp only [ProcessWorld.step]
  split
  · rename_i count hphase hnone
    have hself : PhaseInv s w.outbox.row w.outbox.bumps w.outbox.sends taskId (.claimed count) :=
      hphase ▸ h.outbox.phases taskId
    have hbudget := hself.1
    rw [hnone] at hrender
    have hzero := hrender.resolve_left Bool.noConfusion
    omega
  · rfl

/-- **Step lemma**, for a row that can be rendered or a budget of nothing. -/
theorem ProcessInv.step (hrender : (render template payload).isSome ∨ s.maxAttempts = 0)
    (h : ProcessInv s w) {a : ProcessAction} (hstep : w.step s template payload a = some w') :
    ProcessInv s w' := by
  cases a with
  | claim taskId now =>
    obtain ⟨outbox, houtbox, rfl⟩ := Option.map_eq_some_iff.mp hstep
    have hnew : taskId ∉ w.claims := by
      dsimp only [OutboxWorld.step] at houtbox
      split at houtbox
      · rename_i hphase
        exact h.fresh taskId hphase
      · cases houtbox
    have hquiet : ProcessInv s { w with outbox } := by
      refine h.quiet houtbox (fun _ hid => hid) fun id hid hacts => ?_
      exact absurd (Option.some_inj.mp hacts ▸ hid) hnew
    -- an invocation that gets no row ends at once and is no claim
    cases hclaim : claimOutbox s taskId now w.outbox.row with
    | none => exact hquiet
    | some =>
      refine hquiet.addClaim hnew ?_
      dsimp only [OutboxWorld.step] at houtbox
      split at houtbox
      · rw [hclaim] at houtbox
        cases houtbox
        rw [OutboxWorld.invocations_goto_self]
        split <;> trivial
      · cases houtbox
  | markExhausted taskId now =>
    obtain ⟨outbox, houtbox, rfl⟩ := Option.map_eq_some_iff.mp hstep
    by_cases hholds : HoldsLease taskId now w.outbox.row
    -- a closed row is dead, so this is the first invocation to close it
    · have hopen : w.closed = [] := by
        by_contra hne
        have hdead := h.closed_dead hne
        rw [hholds.1] at hdead
        cases hdead
      have hrow : outbox.row.status = .dead := by
        dsimp only [OutboxWorld.step] at houtbox
        split at houtbox
        · rw [markDead, if_pos hholds] at houtbox
          cases houtbox
          rfl
        · cases houtbox
      rw [if_pos hholds, hopen, List.nil_append]
      refine h.next houtbox (fun id => mem_lostAt) (fun id hid => ?_) (fun id hid hacts => ?_)
        (fun _ => hrow) (Nat.le_refl 1)
      · rw [hopen] at hid
        cases hid
      · rw [Option.some_inj.mp hacts]
        exact Or.inr (Or.inr (Or.inl (List.mem_singleton_self id)))
    · rw [if_neg hholds]
      refine h.quiet houtbox (fun id => mem_lostAt) fun id hid hacts => ?_
      obtain rfl : taskId = id := Option.some_inj.mp hacts
      exact Or.inr (Or.inl (mem_lostAt_of_not_holds hholds))
  | renderRaises =>
    -- excluded: the template renders, or the budget lets nobody come here
    rw [h.step_renderRaises hrender] at hstep
    cases hstep
  | bump taskId now =>
    dsimp only [ProcessWorld.step] at hstep
    split at hstep
    · obtain ⟨outbox, houtbox, rfl⟩ := Option.map_eq_some_iff.mp hstep
      refine h.quiet houtbox (fun id => mem_lostAt) fun id _ hid => ?_
      obtain rfl : taskId = id := Option.some_inj.mp hid
      dsimp only [OutboxWorld.step] at houtbox
      split at houtbox
      · rw [bumpAttempt] at houtbox
        by_cases hholds : HoldsLease taskId now w.outbox.row
        · rw [if_pos hholds] at houtbox
          cases houtbox
          exact Or.inl (List.mem_append_right _ (List.mem_singleton_self taskId))
        · exact Or.inr (Or.inl (mem_lostAt_of_not_holds hholds))
      · cases houtbox
    · cases hstep
  | send taskId | answer taskId =>
    obtain ⟨outbox, houtbox, rfl⟩ := Option.map_eq_some_iff.mp hstep
    refine h.quiet houtbox (fun _ hid => hid) fun id _ hid => Or.inl ?_
    obtain rfl : taskId = id := Option.some_inj.mp hid
    have hphase := (h.outbox.step houtbox).phases taskId
    dsimp only [OutboxWorld.step] at houtbox
    split at houtbox <;> cases houtbox
    rw [OutboxWorld.invocations_goto_self] at hphase
    exact hphase
  | sendRaises taskId =>
    dsimp only [ProcessWorld.step] at hstep
    split at hstep
    · rename_i hphase
      obtain ⟨outbox, houtbox, rfl⟩ := Option.map_eq_some_iff.mp hstep
      refine h.quiet houtbox (fun _ hid => hid) fun id _ hid => Or.inl ?_
      obtain rfl : taskId = id := Option.some_inj.mp hid
      have hself : PhaseInv s w.outbox.row w.outbox.bumps w.outbox.sends taskId .sending :=
        hphase ▸ h.outbox.phases taskId
      exact (OutboxWorld.frame_of_step houtbox).2.2 taskId hself
    · cases hstep
  | record taskId =>
    obtain ⟨outbox, houtbox, rfl⟩ := Option.map_eq_some_iff.mp hstep
    refine h.quiet houtbox (fun _ hid => hid) fun id _ hid => Or.inl ?_
    obtain rfl : taskId = id := Option.some_inj.mp hid
    refine (OutboxWorld.frame_of_step houtbox).2.2 taskId ?_
    dsimp only [OutboxWorld.step] at houtbox
    split at houtbox
    · rename_i outcome hphase
      have hself : PhaseInv s w.outbox.row w.outbox.bumps w.outbox.sends taskId
          (.answered outcome) := hphase ▸ h.outbox.phases taskId
      exact hself
    · cases houtbox
  | sweep =>
    rw [ProcessWorld.step] at hstep
    obtain ⟨outbox, houtbox, rfl⟩ := Option.map_eq_some_iff.mp hstep
    exact h.quiet houtbox (fun _ hid => hid) fun id _ hid => by cases hid

/-- An invocation whose claim is accounted for has made progress when it ends. -/
theorem ProcessInv.makesProgress
    (hrender : (render template payload).isSome ∨ s.maxAttempts = 0) (h : ProcessInv s w)
    (a : ProcessAction) (hclaims : ∀ w', w.step s template payload a = some w' →
      ∀ id ∈ w.claims, id ∈ w'.claims) : MakesProgress s template payload w a := by
  intro w' hstep taskId hclaimed _ hfinished
  have hnext := h.step hrender hstep
  rcases hnext.covered taskId (hclaims w' hstep taskId hclaimed) with
    hbumped | hlost | hclosed | huncounted
  · exact Or.inr (Or.inl hbumped)
  · exact Or.inr (Or.inr hlost)
  · exact Or.inl (Or.inr (hnext.closed_dead (List.ne_nil_of_mem hclosed)))
  · cases hphase : w'.outbox.invocations taskId <;> rw [hphase] at hfinished huncounted <;>
      first | exact hfinished.elim | exact huncounted.elim

/-- The claims of invocations that kept their lease are attempts, but for one: the holder of the
row, or the invocation that has ended it. -/
theorem ProcessInv.length_kept_le (h : ProcessInv s w) :
    (w.claims.filter fun id => KeptLease w id).length ≤ s.maxAttempts + 1 := by
  have hextra : ∃ extra : List ℕ, extra.length ≤ 1 ∧
      ∀ id ∈ w.claims.filter (fun id => KeptLease w id), id ∈ extra ++ w.outbox.bumps := by
    by_cases hclosed : w.closed = []
    · refine ⟨w.outbox.row.lockedBy.toList, by cases w.outbox.row.lockedBy <;> simp, ?_⟩
      intro id hid
      obtain ⟨hclaimed, hkept⟩ := List.mem_filter.mp hid
      obtain ⟨hlost, hholds⟩ := of_decide_eq_true hkept
      rcases h.covered id hclaimed with hbumped | hgone | hended | huncounted
      · exact List.mem_append_right _ hbumped
      · exact absurd hgone hlost
      · rw [hclosed] at hended
        cases hended
      · rw [hholds huncounted]
        exact List.mem_append_left _ (List.mem_singleton_self id)
    · refine ⟨w.closed, h.closed_le, fun id hid => ?_⟩
      obtain ⟨hclaimed, hkept⟩ := List.mem_filter.mp hid
      obtain ⟨hlost, hholds⟩ := of_decide_eq_true hkept
      rcases h.covered id hclaimed with hbumped | hgone | hended | huncounted
      · exact List.mem_append_right _ hbumped
      · exact absurd hgone hlost
      · exact List.mem_append_left _ hended
      · -- nobody holds a dead row
        have hsending := h.locked (by rw [hholds huncounted]; rfl)
        rw [h.closed_dead hclosed] at hsending
        cases hsending
  obtain ⟨extra, hextra, hsub⟩ := hextra
  have hlen := (List.subperm_of_subset (h.claims_nodup.filter _) hsub).length_le
  have hcount := h.outbox.count
  have hle := h.outbox.le
  rw [List.length_append] at hlen
  omega

/-- No invocation has lost its lease: none has found so at its end, and those that have yet to count
their attempt hold the row. -/
structure Held (w : ProcessWorld) : Prop where
  lost : w.lost = []
  locked : ∀ id, (w.outbox.invocations id).IsUncounted → w.outbox.row.lockedBy = some id

theorem held_init (nextAttemptAt : ℕ) : Held (.init nextAttemptAt) := ⟨rfl, fun _ => False.elim⟩

/-- A step in time takes the row from nobody who has yet to count. -/
theorem Held.locked_of_step (h : Held w) (hsending : w.outbox.row.lockedBy.isSome →
    w.outbox.row.status = .sending) (hstep : w.outbox.step s a = some outbox)
    (hsweep : ∀ now, a = .sweep now → InTime w (.sweep now)) (id : ℕ)
    (huncounted : (outbox.invocations id).IsUncounted) : outbox.row.lockedBy = some id := by
  rcases OutboxWorld.uncounted_of_step hstep huncounted with ⟨now, -, -, hlocked⟩ |
    ⟨hother, hbefore⟩
  · exact hlocked
  have hheld := h.locked id hbefore
  have hchange := rowChange_of_step hstep
  generalize outbox.row = row at hchange ⊢
  cases hchange with
  | same => exact hheld
  | claimed taskId now hpending =>
    have hstatus := hsending (by rw [hheld]; rfl)
    rw [hpending] at hstatus
    cases hstatus
  | bumped => exact hheld
  | released taskId now haction hholds =>
    -- the row is released by its holder, and that is another invocation
    obtain rfl : taskId = id := Option.eq_some_unique hholds.2.1 hheld
    rcases haction with rfl | rfl <;> exact absurd rfl hother
  | swept now hstatus hexpired => exact absurd hbefore (hsweep now rfl hexpired id hheld)

theorem lostAt_of_holds (h : HoldsLease taskId now w.outbox.row) :
    w.lostAt taskId now = w.lost := by
  rw [ProcessWorld.lostAt, if_pos h]

/-- **Step lemma**: in time, no invocation loses its lease. -/
theorem Held.step (hrender : (render template payload).isSome ∨ s.maxAttempts = 0)
    (hinv : ProcessInv s w) (h : Held w) {a : ProcessAction} (htime : InTime w a)
    (hstep : w.step s template payload a = some w') : Held w' := by
  cases a with
  | claim =>
    obtain ⟨outbox, houtbox, rfl⟩ := Option.map_eq_some_iff.mp hstep
    have hlocked := h.locked_of_step hinv.locked houtbox nofun
    split
    · exact ⟨h.lost, hlocked⟩
    · exact ⟨h.lost, hlocked⟩
  | markExhausted =>
    obtain ⟨outbox, houtbox, rfl⟩ := Option.map_eq_some_iff.mp hstep
    exact ⟨(lostAt_of_holds htime).trans h.lost, h.locked_of_step hinv.locked houtbox nofun⟩
  | renderRaises =>
    rw [hinv.step_renderRaises hrender] at hstep
    cases hstep
  | bump =>
    dsimp only [ProcessWorld.step] at hstep
    split at hstep
    · obtain ⟨outbox, houtbox, rfl⟩ := Option.map_eq_some_iff.mp hstep
      exact ⟨(lostAt_of_holds htime).trans h.lost, h.locked_of_step hinv.locked houtbox nofun⟩
    · cases hstep
  | sendRaises =>
    dsimp only [ProcessWorld.step] at hstep
    split at hstep
    · obtain ⟨outbox, houtbox, rfl⟩ := Option.map_eq_some_iff.mp hstep
      exact ⟨h.lost, h.locked_of_step hinv.locked houtbox nofun⟩
    · cases hstep
  | send | answer | record =>
    rw [ProcessWorld.step] at hstep
    obtain ⟨outbox, houtbox, rfl⟩ := Option.map_eq_some_iff.mp hstep
    exact ⟨h.lost, h.locked_of_step hinv.locked houtbox nofun⟩
  | sweep =>
    rw [ProcessWorld.step] at hstep
    obtain ⟨outbox, houtbox, rfl⟩ := Option.map_eq_some_iff.mp hstep
    refine ⟨h.lost, h.locked_of_step hinv.locked houtbox fun now' heq => ?_⟩
    obtain rfl := OutboxAction.sweep.inj heq
    exact htime

/-- The claims are attempts, but for one. -/
theorem Held.length_claims_le (h : Held w) (hinv : ProcessInv s w) :
    w.claims.length ≤ s.maxAttempts + 1 := by
  have hkept : ∀ id ∈ w.claims, decide (KeptLease w id) = true := by
    intro id _
    exact decide_eq_true ⟨by rw [h.lost]; exact List.not_mem_nil, h.locked id⟩
  have hle := hinv.length_kept_le
  rwa [List.filter_eq_self.mpr hkept] at hle

/-- No claim is forgotten. -/
theorem mem_claims_of_step {a : ProcessAction} (hstep : w.step s template payload a = some w')
    {id : ℕ} (hid : id ∈ w.claims) : id ∈ w'.claims := by
  cases a with
  | claim =>
    obtain ⟨outbox, -, rfl⟩ := Option.map_eq_some_iff.mp hstep
    split
    · exact hid
    · exact List.mem_append_left _ hid
  | markExhausted =>
    obtain ⟨outbox, -, rfl⟩ := Option.map_eq_some_iff.mp hstep
    exact hid
  | renderRaises | bump | sendRaises =>
    dsimp only [ProcessWorld.step] at hstep
    split at hstep
    · obtain ⟨outbox, -, rfl⟩ := Option.map_eq_some_iff.mp hstep
      exact hid
    · cases hstep
  | send | answer | record | sweep =>
    rw [ProcessWorld.step] at hstep
    obtain ⟨outbox, -, rfl⟩ := Option.map_eq_some_iff.mp hstep
    exact hid

end invariant

/-! ### A row that cannot be rendered -/

section poison

variable {s : OutboxSettings} {template : String} {payload : Dict} {w : ProcessWorld}

/-- The row waits again after so many invocations have claimed it and ended without an attempt. -/
structure Poisoned (w : ProcessWorld) (count time : ℕ) : Prop where
  status : w.outbox.row.status = .pending
  due : w.outbox.row.nextAttemptAt ≤ time
  attemptCount : w.outbox.row.attemptCount = 0
  fresh : ∀ id, count ≤ id → w.outbox.invocations id = .fresh
  finished : ∀ id < count, w.outbox.invocations id = .finished
  claims : w.claims = List.range count
  lost : w.lost = []

/-- Another invocation claims the row, raises, and its lease is swept when it has expired. -/
theorem Poisoned.round {count time : ℕ} (h : Poisoned w count time)
    (hrender : render template payload = none) (hbudget : s.maxAttempts ≠ 0) :
    ∃ as w', StepSystem.run (ProcessWorld.step s template payload) w as = some w' ∧
      StepSystem.Along (ProcessWorld.step s template payload) InTime w as ∧
      Poisoned w' (count + 1) (time + s.leaseSeconds + 1) := by
  have hclaim : claimOutbox s count time w.outbox.row = some { w.outbox.row with
      status := .sending
      lockedBy := some count
      lockedUntil := some (time + s.leaseSeconds) } := if_pos ⟨h.status, h.due⟩
  obtain ⟨w₁, hfirst, hrow₁, hinvocations₁, hclaims₁, hlost₁⟩ :
      ∃ w₁, w.step s template payload (.claim count time) = some w₁ ∧
        w₁.outbox.row = { w.outbox.row with
          status := .sending
          lockedBy := some count
          lockedUntil := some (time + s.leaseSeconds) } ∧
        w₁.outbox.invocations = Function.update w.outbox.invocations count (.claimed 0) ∧
        w₁.claims = w.claims ++ [count] ∧ w₁.lost = w.lost := by
    have hcount : ¬s.maxAttempts ≤ 0 := by omega
    simp only [ProcessWorld.step, OutboxWorld.step, h.fresh count (Nat.le_refl count), hclaim,
      h.attemptCount, if_neg hcount, Option.map_some]
    exact ⟨_, rfl, rfl, rfl, rfl, rfl⟩
  have hphase₁ : w₁.outbox.invocations count = .claimed 0 := by
    rw [hinvocations₁, Function.update_self]
  have hholds : HoldsLease count time w₁.outbox.row := by
    rw [hrow₁]
    exact ⟨rfl, rfl, _, rfl, Nat.le_add_right _ _⟩
  obtain ⟨w₂, hsecond, hrow₂, hinvocations₂, hclaims₂, hlost₂⟩ :
      ∃ w₂, w₁.step s template payload (.renderRaises count time) = some w₂ ∧
        w₂.outbox.row = w₁.outbox.row ∧
        w₂.outbox.invocations = Function.update w₁.outbox.invocations count .finished ∧
        w₂.claims = w₁.claims ∧ w₂.lost = w₁.lost := by
    simp only [ProcessWorld.step, OutboxWorld.step, hphase₁, hrender, ProcessWorld.lostAt,
      if_pos hholds, Option.map_some]
    exact ⟨_, rfl, rfl, rfl, rfl, rfl⟩
  have hexpired : w₂.outbox.row.status = .sending ∧
      ∃ t ∈ w₂.outbox.row.lockedUntil, t < time + s.leaseSeconds + 1 := by
    rw [hrow₂, hrow₁]
    exact ⟨rfl, _, rfl, Nat.lt_succ_self _⟩
  have hended : InTime w₂ (.sweep (time + s.leaseSeconds + 1)) := by
    -- the lease that is swept is that of the invocation that has raised
    intro _ taskId hlocked
    rw [hrow₂, hrow₁] at hlocked
    cases hlocked
    rw [hinvocations₂, Function.update_self]
    exact id
  refine ⟨[.claim count time, .renderRaises count time, .sweep (time + s.leaseSeconds + 1)],
    { w₂ with outbox := { w₂.outbox with
      row := sweepOutbox (time + s.leaseSeconds + 1) w₂.outbox.row } }, ?_, ?_, ?_⟩
  · rw [StepSystem.run_cons_iff]
    refine ⟨w₁, hfirst, ?_⟩
    rw [StepSystem.run_cons_iff]
    exact ⟨w₂, hsecond, rfl⟩
  · rw [StepSystem.along_cons_of_step hfirst, StepSystem.along_cons_of_step hsecond]
    exact ⟨trivial, trivial, hended, trivial⟩
  · have hrow : sweepOutbox (time + s.leaseSeconds + 1) w₂.outbox.row =
        { w₂.outbox.row with
          status := .pending
          lockedBy := none
          lockedUntil := none
          nextAttemptAt := max w₂.outbox.row.nextAttemptAt (time + s.leaseSeconds + 1) } :=
      if_pos hexpired
    have hinvocations : w₂.outbox.invocations =
        Function.update w.outbox.invocations count .finished := by
      rw [hinvocations₂, hinvocations₁, Function.update_idem]
    constructor
    · dsimp only
      rw [hrow]
    · dsimp only
      rw [hrow, hrow₂, hrow₁]
      exact Nat.max_le.mpr ⟨Nat.le_trans h.due (by omega), Nat.le_refl _⟩
    · dsimp only
      rw [hrow, hrow₂, hrow₁]
      exact h.attemptCount
    · intro id hid
      dsimp only
      rw [hinvocations, Function.update_of_ne (by omega)]
      exact h.fresh id (by omega)
    · intro id hid
      dsimp only
      rw [hinvocations]
      by_cases hlast : id = count
      · rw [hlast, Function.update_self]
      · rw [Function.update_of_ne hlast]
        exact h.finished id (by omega)
    · dsimp only
      rw [hclaims₂, hclaims₁, h.claims, List.range_succ]
    · dsimp only
      rw [hlost₂, hlost₁, h.lost]

/-- The row can be claimed as often as its lease expires, and no attempt is ever counted. -/
theorem exists_poisoned (hrender : render template payload = none) (hbudget : s.maxAttempts ≠ 0)
    (count : ℕ) :
    ∃ as w time, StepSystem.run (ProcessWorld.step s template payload) (.init 0) as = some w ∧
      StepSystem.Along (ProcessWorld.step s template payload) InTime (.init 0) as ∧
      Poisoned w count time := by
  induction count with
  | zero =>
    refine ⟨[], .init 0, 0, rfl, trivial, ?_⟩
    exact
      { status := rfl
        due := Nat.le_refl 0
        attemptCount := rfl
        fresh := fun _ _ => rfl
        finished := fun id hid => absurd hid (Nat.not_lt_zero id)
        claims := rfl
        lost := rfl }
  | succ count ih =>
    obtain ⟨as, w, time, hrun, halong, hpoisoned⟩ := ih
    obtain ⟨bs, w', hround, htime, hnext⟩ := hpoisoned.round hrender hbudget
    exact ⟨as ++ bs, w', _, StepSystem.run_append.mpr ⟨w, hrun, hround⟩,
      (StepSystem.along_append hrun).mpr ⟨halong, htime⟩, hnext⟩

end poison

/-- **Progress of the outbox.** In every run of invocations that are not killed, those that claim
the row and end leave it final, have consumed an attempt or have lost their lease, and at most one
more than the budget of them claim it when each counts its attempt in time, exactly if the row can
be rendered: its template is known, and its payload has the link of the template as a text. (With a
budget of nothing no row is rendered.) -/
theorem progress_iff (s : OutboxSettings) (template : String) (payload : Dict) :
    (∀ nextAttemptAt as w,
      StepSystem.run (ProcessWorld.step s template payload) (.init nextAttemptAt) as = some w →
        StepSystem.Along (ProcessWorld.step s template payload)
          (MakesProgress s template payload) (.init nextAttemptAt) as ∧
        (StepSystem.Along (ProcessWorld.step s template payload) InTime (.init nextAttemptAt) as →
          w.claims.length ≤ s.maxAttempts + 1)) ↔
      (∃ key url, linkKey template = some key ∧ payload.get? key = some (.str url)) ∨
        s.maxAttempts = 0 := by
  rw [← isSome_render_iff]
  constructor
  · intro hall
    by_contra hnot
    obtain ⟨hrender, hbudget⟩ := not_or.mp hnot
    have hnone : render template payload = none := Option.not_isSome_iff_eq_none.mp hrender
    obtain ⟨as, w, time, hrun, htime, hpoisoned⟩ :=
      exists_poisoned hnone hbudget (s.maxAttempts + 2)
    have hle := (hall 0 as w hrun).2 htime
    rw [hpoisoned.claims, List.length_range] at hle
    omega
  · intro hrender nextAttemptAt as w hrun
    have hinv : ∀ v a v', ProcessInv s v → v.step s template payload a = some v' →
        ProcessInv s v' := fun v a v' h hstep => h.step hrender hstep
    refine ⟨?_, fun htime => ?_⟩
    · refine (StepSystem.along_iff_forall_split hrun).mpr fun as₁ a as₂ m _ hrun₁ => ?_
      have hm : ProcessInv s m :=
        StepSystem.run_invariant hinv (processInv_init s nextAttemptAt) hrun₁
      exact hm.makesProgress hrender a fun w' hstep id hid => mem_claims_of_step hstep hid
    · have hboth : ∀ v a v', ProcessInv s v ∧ Held v → InTime v a →
          v.step s template payload a = some v' → ProcessInv s v' ∧ Held v' :=
        fun v a v' h hmeets hstep => ⟨hinv v a v' h.1 hstep, h.2.step hrender h.1 hmeets hstep⟩
      obtain ⟨hclaims, hheld⟩ := StepSystem.run_invariant_along hboth
        ⟨processInv_init s nextAttemptAt, held_init nextAttemptAt⟩ htime hrun
      exact hheld.length_claims_le hclaims

/-- A row with a template that is not known is claimed seven times, by invocations that run to their
end and lose no lease, with a budget of five attempts of which none is counted. -/
theorem unknownTemplate_claimed :
    ∃ as w, StepSystem.run (ProcessWorld.step .default "welcome" []) (.init 0) as = some w ∧
      StepSystem.Along (ProcessWorld.step .default "welcome" []) InTime (.init 0) as ∧
      w.lost = [] ∧ w.claims.length = 7 ∧
      ¬w.claims.length ≤ OutboxSettings.default.maxAttempts + 1 ∧
      w.outbox.row.attemptCount = 0 ∧ w.outbox.row.status = .pending := by
  have hnone : render "welcome" [] = none := by decide
  obtain ⟨as, w, time, hrun, htime, hpoisoned⟩ :=
    exists_poisoned (s := .default) hnone (by decide) 7
  have hlength : w.claims.length = 7 := by rw [hpoisoned.claims, List.length_range]
  refine ⟨as, w, hrun, htime, hpoisoned.lost, hlength, ?_, hpoisoned.attemptCount,
    hpoisoned.status⟩
  rw [hlength]
  decide

/-- Invocations that render for longer than their lease lasts, one after the other. -/
def slowInvocations (n : ℕ) : List ProcessAction :=
  (List.range n).flatMap fun i =>
    [.claim i (121 * i), .sweep (121 * (i + 1)), .bump i (121 * (i + 1))]

/-- A row that can be rendered is claimed seven times, when every invocation loses its lease. -/
theorem slowInvocations_claimed :
    ∃ w, StepSystem.run
        (ProcessWorld.step .default "password_reset" [("reset_url", .str "https://a.test")])
        (.init 0) (slowInvocations 7) = some w ∧
      w.claims.length = 7 ∧ w.lost.length = 7 ∧ w.outbox.row.attemptCount = 0 :=
  StepSystem.exists_run (by decide +kernel)

end IChat.Email
