import IChat.Runs.WorldSteps

/-!
# The terminal event closes the log

A run's log is *closed by its terminal event* when no row has a larger number and no row is added
once it is committed (`ClosedByTerminal`). Every transaction that writes a terminal event gives it
a number above the whole log, and every transaction that checks the status leaves a finished log
alone. One writer checks nothing: `PostgresEventSink.emit` reads the status only for the first
event of a sink. A worker whose run was ended by somebody else goes on appending its tool events.

`closedByTerminal_iff` says that this is the only way: a log stays closed exactly in the runs in
which no streaming sink writes a tool event to a finished run (`AppendsLate`).
-/

namespace IChat

variable {cfg : Settings} {w w' : World} {a : Action} {as : List Action}

/-- No row has a number above that of a terminal event. -/
def TerminalLast (events : List RunEventResponse) : Prop :=
  ∀ t ∈ events, t.type.isTerminal = true → ∀ e ∈ events, e.seq ≤ t.seq

instance (events : List RunEventResponse) : Decidable (TerminalLast events) :=
  inferInstanceAs (Decidable (∀ t ∈ events, t.type.isTerminal = true → ∀ e ∈ events, e.seq ≤ t.seq))

/-- In every state of the execution of `as`, which ends in `w`, the terminal event is last, and
once it is in the log the log no longer changes. -/
def ClosedByTerminal (cfg : Settings) (as : List Action) (w : World) : Prop :=
  ∀ as₁ as₂ w₁, as = as₁ ++ as₂ → StepSystem.run (World.step cfg) World.init as₁ = some w₁ →
    TerminalLast w₁.db.events ∧
      (runHasTerminalEvent w₁.db = true → w.db.events = w₁.db.events)

/-- A sink that already streams is about to write a tool event with a free number to a log that
holds a terminal event. -/
def AppendsLate (w : World) : Action → Prop
  | .postgresSink true _ =>
    runHasTerminalEvent w.db = true ∧ w.worker.postgresSink.streamingStarted = true ∧
      ∃ e ∈ w.worker.pendingPostgres, e.type.isDelta = false ∧ e.seq ≠ 0 ∧
        e.seq ∉ w.db.events.map fun row => row.seq
  | _ => False

instance (w : World) (a : Action) : Decidable (AppendsLate w a) := by
  induction a using Action.casesOn with
  | postgresSink ok =>
    induction ok using Bool.casesOn with
    | true => exact inferInstanceAs (Decidable (_ ∧ _ ∧ ∃ e ∈ w.worker.pendingPostgres, _))
    | false => exact isFalse id
  | _ => exact isFalse id

theorem terminalLast_init : TerminalLast World.init.db.events := by decide

/-! ### One step -/

/-- No row is added to a finished log, except late. -/
theorem events_eq_of_not_appendsLate (h : WorldInv cfg w) (hstep : w.step cfg a = some w')
    (hlate : ¬AppendsLate w a) (hterminal : runHasTerminalEvent w.db = true) :
    w'.db.events = w.db.events := by
  have hstatus : w.db.run.status.isTerminal = true := h.runHasTerminalEvent_eq ▸ hterminal
  rcases World.step_rows h hstep with hsame | ⟨row, happend, hkind⟩
  · exact hsame
  · exfalso
    cases hkind with
    | started _ hqueued =>
      rw [hqueued] at hstatus
      cases hstatus
    | semantic e now haction hpending hrow htype hguard =>
      subst haction
      have hseq : row.seq = e.seq := congrArg RunEvent.seq hrow
      have hdelta : e.type.isDelta = false := by
        rw [← htype, show row.type = e.type from congrArg RunEvent.type hrow]
      have hstarted : w.worker.postgresSink.streamingStarted = true := by
        rcases hguard with hstarted | hstarted
        · exact hstarted
        · rw [hstarted] at hstatus
          cases hstatus
      refine hlate ⟨hterminal, hstarted, e, hpending, hdelta, hseq ▸ happend.positive,
        fun hmem => ?_⟩
      obtain ⟨row', hrow', heq⟩ := List.mem_map.mp hmem
      exact happend.fresh row' hrow' (heq.trans hseq.symm)
    | ended _ hactive =>
      rw [hstatus] at hactive
      cases hactive

/-- A late write does change the log. -/
theorem events_ne_of_appendsLate (hstep : w.step cfg a = some w') (hlate : AppendsLate w a) :
    w'.db.events ≠ w.db.events := by
  cases a with
  | postgresSink ok now =>
    cases ok with
    | false => exact hlate.elim
    | true =>
      obtain ⟨-, hstarted, e, hpending, hdelta, hpos, hfresh⟩ := hlate
      have hemit : w.worker.postgresSink.emit e now w.db =
          .ok ⟨{ w.db with events := w.db.events ++ [⟨e.toRunEvent, now⟩] }, ⟨true⟩, false⟩ := by
        have hfree : ¬(e.seq = 0 ∨ e.seq ∈ w.db.events.map fun row => row.seq) := by
          simp [hpos, hfresh]
        simp only [PostgresEventSink.emit, PostgresEventSink.startStreaming, hstarted, hdelta,
          Bool.and_false, Bool.false_eq_true, if_false, if_true, appendRunEvent, Option.getD_some,
          if_neg hfree, bind, Except.bind]
      replace hstep := World.move_of_step hstep
      simp only [World.move, World.workerStep, Option.mem_def.mp hpending, if_true, hemit] at hstep
      cases hstep
      simp
  | _ => exact hlate.elim

/-- A terminal event gets a number above the whole log, and only late rows come after it. -/
theorem terminalLast_step (h : WorldInv cfg w) (hlast : TerminalLast w.db.events)
    (hstep : w.step cfg a = some w') (hlate : ¬AppendsLate w a) : TerminalLast w'.db.events := by
  cases hterminal : runHasTerminalEvent w.db with
  | true =>
    rw [events_eq_of_not_appendsLate h hstep hlate hterminal]
    exact hlast
  | false =>
    have hnone : ∀ e ∈ w.db.events, e.type.isTerminal = false := by
      simpa [runHasTerminalEvent] using hterminal
    rcases World.step_rows h hstep with hsame | ⟨row, happend, hkind⟩
    · rw [hsame]
      exact hlast
    · intro t ht htype e he
      rw [happend.events] at ht he
      -- the new row is the only terminal event
      obtain rfl : t = row := by
        rcases List.mem_append.mp ht with ht | ht
        · rw [hnone t ht] at htype
          cases htype
        · exact List.mem_singleton.mp ht
      rcases List.mem_append.mp he with he | he
      · cases hkind with
        | started hstarted =>
          rw [hstarted] at htype
          cases htype
        | semantic e' _ _ _ hrow =>
          have hforwarded := RunEventType.isTerminal_eq_false_of_isForwarded e'.forwarded
          rw [show t.type = e'.type from congrArg RunEvent.type hrow, hforwarded] at htype
          cases htype
        | ended _ _ hseq =>
          have hnext := lt_getNextRunEventSeq he
          rcases hseq with ⟨hseq, hprepared⟩ | ⟨-, hseq⟩ | ⟨-, hseq⟩
          · have := h.row_seq_le hprepared he (hnone e he)
            omega
          · exact (World.lt_recoverySeq hseq he).le
          · omega
      · rw [List.mem_singleton.mp he]

/-! ### Whole runs -/

/-- **The terminal event is last**, exactly in the runs in which no streaming sink writes a tool
event to a log that already holds a terminal event. -/
theorem closedByTerminal_iff
    (hrun : StepSystem.run (World.step cfg) World.init as = some w) :
    StepSystem.Along (World.step cfg) (fun w a => ¬AppendsLate w a) World.init as ↔
      ClosedByTerminal cfg as w := by
  constructor
  · rintro halong as₁ as₂ w₁ rfl hrun₁
    obtain ⟨halong₁, halong₂⟩ := (StepSystem.along_append hrun₁).mp halong
    obtain ⟨w₁', hrun₁', hrun₂⟩ := StepSystem.run_append.mp hrun
    obtain rfl : w₁ = w₁' := Option.eq_some_unique hrun₁ hrun₁'
    have hstep : ∀ s a s', (WorldInv cfg s ∧ TerminalLast s.db.events) → ¬AppendsLate s a →
        s.step cfg a = some s' → WorldInv cfg s' ∧ TerminalLast s'.db.events :=
      fun _ _ _ h hlate hstep => ⟨h.1.step hstep, terminalLast_step h.1 h.2 hstep hlate⟩
    have hinv := StepSystem.run_invariant_along hstep
      ⟨worldInv_init, terminalLast_init⟩ halong₁ hrun₁
    refine ⟨hinv.2, fun hterminal => ?_⟩
    -- from here on the log is frozen
    have hfrozen : ∀ s a s', (WorldInv cfg s ∧ s.db.events = w₁.db.events) → ¬AppendsLate s a →
        s.step cfg a = some s' → WorldInv cfg s' ∧ s'.db.events = w₁.db.events := by
      intro s a s' ⟨h, hsame⟩ hlate hstep
      have hstill : runHasTerminalEvent s.db = true := by
        rw [runHasTerminalEvent, hsame]
        exact hterminal
      exact ⟨h.step hstep, by rw [events_eq_of_not_appendsLate h hstep hlate hstill, hsame]⟩
    exact (StepSystem.run_invariant_along hfrozen ⟨hinv.1, rfl⟩ halong₂ hrun₂).2
  · intro hclosed
    refine (StepSystem.along_iff_forall_split hrun).mpr fun as₁ a as₂ w₁ hsplit hrun₁ hlate => ?_
    rw [hsplit] at hrun
    obtain ⟨w₁', hrun₁', hrest⟩ := StepSystem.run_append.mp hrun
    obtain rfl : w₁ = w₁' := Option.eq_some_unique hrun₁ hrun₁'
    obtain ⟨w₂, hstep, -⟩ := StepSystem.run_cons_iff.mp hrest
    have hrun₂ : StepSystem.run (World.step cfg) World.init (as₁ ++ [a]) = some w₂ :=
      StepSystem.run_append.mpr ⟨w₁, hrun₁, StepSystem.run_cons_iff.mpr ⟨w₂, hstep, rfl⟩⟩
    -- both the log before the late write and the one after it would be the final log
    have hterminal : runHasTerminalEvent w₁.db = true := by
      cases a with
      | postgresSink ok => cases ok <;> first | exact hlate.1 | exact hlate.elim
      | _ => exact hlate.elim
    have hterminal₂ : runHasTerminalEvent w₂.db = true := by
      obtain ⟨t, ht, htype⟩ := runHasTerminalEvent_iff.mp hterminal
      exact runHasTerminalEvent_iff.mpr
        ⟨t, World.events_subset_of_step (worldInv_of_run hrun₁) hstep ht, htype⟩
    have hfinal₁ := (hclosed as₁ (a :: as₂) w₁ hsplit hrun₁).2 hterminal
    have hfinal₂ := (hclosed (as₁ ++ [a]) as₂ w₂ (by rw [hsplit]; simp) hrun₂).2 hterminal₂
    exact events_ne_of_appendsLate hstep hlate (hfinal₂.symm.trans hfinal₁)

/-- A worker whose lease expired while it was streaming: recovery fails the run with number 3, and
the worker then emits a tool event. -/
def lateToolRun : List Action :=
  [.claim "worker-1" 30 0, .prepare none, .listPersisted true, .publishPersisted true,
    .startStreaming,
    .emit (.textDelta "Hi"), .redisSink true 1, .postgresSink true 1, .draftSink true 1,
    .beginRecovery 100, .probeStream .readable, .recover,
    .emit (.textDelta "!"), .redisSink true 101, .postgresSink true 101, .draftSink true 101,
    .emit (.toolCallStarted "web_search" [] 1), .redisSink true 102, .postgresSink true 102]

/-- The log of `lateToolRun` ends with a row above its terminal event. -/
theorem lateToolRun_not_closed :
    ∃ w, StepSystem.run (World.step Settings.default) World.init lateToolRun = some w ∧
      w.db.events.map (fun e => (e.seq, e.type)) =
        [(1, .runStarted), (3, .runFailed), (4, .toolCallStarted)] ∧
      ¬ClosedByTerminal Settings.default lateToolRun w := by
  refine ⟨_, rfl, by decide, fun hclosed => ?_⟩
  have hlast := (hclosed lateToolRun [] _ (by simp) rfl).1
  revert hlast
  decide

/-- The same worker when its run is not recovered: the log ends with the terminal event. -/
def orderlyRun : List Action :=
  [.claim "worker-1" 30 0, .prepare none, .listPersisted true, .publishPersisted true,
    .startStreaming,
    .emit (.textDelta "Hi"), .redisSink true 1, .postgresSink true 1, .draftSink true 1,
    .emit (.toolCallStarted "web_search" [] 1), .redisSink true 2, .postgresSink true 2,
    .draftSink true 2,
    .endStream .succeeded [⟨.assistant, [.text "Hi"]⟩] none none none, .flushSinks true 3,
    .finalize true none [] 3, .publishTerminal true 3]

theorem orderlyRun_closed :
    ∃ w, StepSystem.run (World.step Settings.default) World.init orderlyRun = some w ∧
      ClosedByTerminal Settings.default orderlyRun w :=
  ⟨_, rfl, (closedByTerminal_iff rfl).mp (by decide)⟩

end IChat
