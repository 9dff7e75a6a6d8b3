import IChat.Runs.StreamEnds

/-!
# The number of a recovered run's last event

Recovery ends a run whose worker is gone, or is taken for gone, without asking it. The log, the
draft and the Redis stream each lag behind what the worker has emitted, and a client may have
followed any of them; the terminal event must lie above the client's cursor to be delivered.

Recovery reads the log and the draft, asks the stream, and only then writes. A worker that is still
alive may store a draft or append to the stream in between, and so pass the number that recovery
writes (`Overtakes`, `recovery_seq_overtaken`).

* `recover_eq`: what the recovery of an expired run does to the database;
* `Subscription.receives`: a client that connects below the terminal event of the log receives it
  within its first three calls;
* `recovery_seq_fresh_of_along`: the number recovery picks, if nothing overtakes it.
-/

namespace IChat

variable {cfg : Settings} {w w' : World}

/-! ### The numbers that are known -/

/-- The numbers PostgreSQL knows of. -/
def Db.knownSeqs (db : Db) : List ℕ :=
  (db.events.map fun e => e.seq) ++ (db.draft.map fun d => d.seq).toList

/-- The numbers a client may have been given from one of the three stores. -/
def World.knownSeqs (w : World) : List ℕ :=
  w.db.knownSeqs ++ w.stream.entries.map fun e => e.seq

/-- The newest entry of an ordered stream has the greatest number. -/
theorem EventStream.Ordered.seq_le_latestSeq {s : EventStream} (h : s.Ordered)
    {e : RunEventResponse} (he : e ∈ s.entries) : e.seq ≤ s.latestSeq := by
  unfold EventStream.latestSeq
  cases hlast : s.entries.getLast? with
  | none =>
    rw [List.getLast?_eq_none_iff.mp hlast] at he
    cases he
  | some => exact h.ascending.key_le_of_getLast? he hlast

/-! ### The recovery of an expired run -/

/-- The row recovery appends. -/
def recoveredRow (seq : ℕ) (now : Time) : RunEventResponse :=
  ⟨⟨seq, .runFailed, failurePayload "lease_expired" "worker lease expired"⟩, now⟩

/-- The recovery of an expired run commits: the log grows by the terminal event. -/
theorem recover_eq {now : Time} {draft : Option RunDraft} {probe : StreamProbe}
    (hrecovery : w.recovery = some ⟨now, draft, some probe⟩)
    (hexpired : leaseExpired now w.db = true) (hstep : w.step cfg .recover = some w') :
    w'.db.events = w.db.events ++ [recoveredRow (recoveredLatestSeq probe
      cfg.uncertainStreamSeqGap { w.db with draft := draft } + 1) now] := by
  set latestSeq := recoveredLatestSeq probe cfg.uncertainStreamSeqGap { w.db with draft := draft }
    with hlatest
  have hstatus : w.db.run.status ∈ failedFromStatuses := by
    have hactive := (Bool.and_eq_true_iff.mp hexpired).1
    exact of_decide_eq_true hactive
  have hfresh : latestSeq + 1 ∉ w.db.events.map fun e => e.seq := by
    intro hmem
    obtain ⟨row, hrow, hseq⟩ := List.mem_map.mp hmem
    have hle := @seq_le_recoveredLatestSeq probe cfg.uncertainStreamSeqGap
      { w.db with draft := draft } row hrow
    omega
  have hfree : ¬(latestSeq + 1 = 0 ∨ latestSeq + 1 ∈ w.db.events.map fun e => e.seq) :=
    not_or.mpr ⟨Nat.succ_ne_zero _, hfresh⟩
  have hexec : recoverExpiredRuns draft probe cfg.uncertainStreamSeqGap now w.db =
      .ok (deleteRunDraft { w.db with
        run := { w.db.run.close .failed now with
          failedAt := some now
          errorCode := some "lease_expired"
          errorMessage := some "worker lease expired" }
        events := w.db.events ++ [recoveredRow (latestSeq + 1) now] }, true) := by
    unfold recoverExpiredRuns markRunFailed endRun appendRunEvent
    simp only [if_pos hexpired, if_pos hstatus, ← hlatest, Option.getD_some, if_neg hfree]
    rfl
  replace hstep := World.move_of_step hstep
  simp only [World.move, World.workerStep, World.otherStep, hrecovery] at hstep
  cases hstep
  simp only [commit, Tx.exec, hexec, Except.map]
  rfl

/-! ### A client below the terminal event -/

section Client

variable {afterSeq : ℕ} {row : RunEventResponse} {s s' : Subscription}

/-- A client in its first iteration, which has listed the row if it has listed anything, or one
that has been given the row. -/
def Receiving (row : RunEventResponse) (r : Reader) : Prop :=
  match r.pc with
  | .listFirst => r.cursor < row.seq
  | .replay persisted => row ∈ persisted
  | .readDraft persisted _ => row ∈ persisted
  | .finished => ∃ e ∈ r.yielded, e.toRunEvent = row.toRunEvent
  | _ => False

/-- The calls that are left of the first iteration. -/
def Reader.callsLeft (r : Reader) : ℕ :=
  match r.pc with
  | .listFirst => 3
  | .replay _ => 2
  | .readDraft _ _ => 1
  | _ => 0

/-- A call of the reader. -/
def SubscriptionAction.isRead : SubscriptionAction → Bool
  | .read _ => true
  | .env _ => false

/-- Every call of the first iteration brings the client closer to the row. -/
theorem Receiving.read {redisOk : Bool} (h : SubscriptionInv cfg afterSeq s)
    (hrow : row ∈ s.world.db.events) (htype : row.type.isTerminal = true)
    (hreceiving : Receiving row s.reader) {r' : Reader}
    (hr : s.reader.step redisOk s.world.db s.world.stream = some r') :
    Receiving row r' ∧ r'.callsLeft + 1 = s.reader.callsLeft := by
  unfold Receiving at hreceiving
  cases hpc : s.reader.pc <;> rw [hpc] at hreceiving <;> dsimp only at hreceiving
  case listFirst =>
    simp only [Reader.step, hpc, Option.some.injEq] at hr
    subst hr
    refine ⟨mem_listRunEventsAfter.mpr ⟨hrow, hreceiving⟩, ?_⟩
    simp [Reader.callsLeft, hpc]
  case replay persisted =>
    simp only [Reader.step, hpc, Option.some.injEq] at hr
    subst hr
    refine ⟨hreceiving, ?_⟩
    simp [Reader.callsLeft, hpc]
  case readDraft persisted streamed =>
    rcases Subscription.read_cases h hr with ⟨_, -, -, -, -, hsource⟩ | ⟨_, hpc', -⟩ |
      ⟨hpc', -⟩ | ⟨_, _, checkpointEvents, hpc', hrows, hentries, -, hdelivers⟩
    · exact absurd hpc (hsource persisted streamed)
    · rw [hpc] at hpc'
      cases hpc'
    · rw [hpc] at hpc'
      cases hpc'
    · rw [hpc] at hpc'
      cases hpc'
      have hmem : row ∈ Reader.mergeEvents streamed checkpointEvents persisted :=
        mem_mergeEvents_of_row hrows hentries hreceiving
      have hany : (Reader.mergeEvents streamed checkpointEvents persisted).any
          (fun e => e.type.isTerminal) = true := List.any_eq_true.mpr ⟨row, hmem, htype⟩
      have hfinished : r'.pc = .finished := by rw [hdelivers.pc, if_pos hany]
      refine ⟨?_, by simp [Reader.callsLeft, hpc, hfinished]⟩
      -- the batch has a terminal event, and the log has no other than the row
      obtain ⟨e, he, heType⟩ := hdelivers.exists_terminal ReaderPc.noConfusion hfinished
      have hinv := h.read hr
      obtain ⟨row', hrow', heq⟩ := hinv.terminal_row he heType
      have hrowType : row'.type.isTerminal = true := by
        rw [show row'.type = e.type from congrArg RunEvent.type heq, heType]
      obtain rfl := h.world.terminal_unique hrow' hrow hrowType htype
      unfold Receiving
      rw [hfinished]
      exact ⟨e, he, heq.symm⟩
  case finished => simp [Reader.step, hpc] at hr

/-- A client stays on its way to the row, and every call counts. -/
theorem Receiving.run {as : List SubscriptionAction} (h : SubscriptionInv cfg afterSeq s)
    (hrow : row ∈ s.world.db.events) (htype : row.type.isTerminal = true)
    (hreceiving : Receiving row s.reader)
    (hrun : StepSystem.run (Subscription.step cfg) s as = some s') :
    Receiving row s'.reader ∧
      s'.reader.callsLeft + as.countP SubscriptionAction.isRead = s.reader.callsLeft := by
  induction as generalizing s with
  | nil =>
    cases hrun
    exact ⟨hreceiving, rfl⟩
  | cons a as ih =>
    obtain ⟨m, hm, hrest⟩ := StepSystem.run_cons_iff.mp hrun
    have hinv := h.step hm
    cases a with
    | env =>
      obtain ⟨w', hw, rfl⟩ := Option.map_eq_some_iff.mp hm
      have hkept := World.events_subset_of_step h.world hw hrow
      obtain ⟨hend, hcalls⟩ := ih hinv hkept hreceiving hrest
      exact ⟨hend, by simpa [SubscriptionAction.isRead] using hcalls⟩
    | read redisOk =>
      obtain ⟨r', hr, rfl⟩ := Option.map_eq_some_iff.mp hm
      obtain ⟨hnext, hcall⟩ := Receiving.read h hrow htype hreceiving hr
      obtain ⟨hend, hcalls⟩ := ih hinv hrow hnext hrest
      refine ⟨hend, ?_⟩
      have hcount : (SubscriptionAction.read redisOk :: as).countP SubscriptionAction.isRead =
          as.countP SubscriptionAction.isRead + 1 := List.countP_cons_of_pos rfl
      have hrest' : s'.reader.callsLeft + as.countP SubscriptionAction.isRead = r'.callsLeft :=
        hcalls
      omega

/-- **Delivery.** A client that connects below the terminal event of the log has it after three
calls, whatever happens in between. -/
theorem Subscription.receives {as : List SubscriptionAction} (hw : WorldInv cfg w)
    (hrow : row ∈ w.db.events) (htype : row.type.isTerminal = true) (hafter : afterSeq < row.seq)
    (hrun : StepSystem.run (Subscription.step cfg) (.open w afterSeq) as = some s)
    (hcalls : as.countP SubscriptionAction.isRead = 3) :
    s.reader.pc = .finished ∧ ∃ e ∈ s.reader.yielded, e.toRunEvent = row.toRunEvent := by
  have hopen : Receiving row (Subscription.open w afterSeq).reader := hafter
  obtain ⟨hend, hleft⟩ := Receiving.run (subscriptionInv_open hw afterSeq) hrow htype hopen hrun
  have hzero : s.reader.callsLeft = 0 := by
    have hstart : (Subscription.open w afterSeq).reader.callsLeft = 3 := rfl
    omega
  unfold Receiving at hend
  unfold Reader.callsLeft at hzero
  cases hpc : s.reader.pc <;> rw [hpc] at hend hzero <;> dsimp only at hend hzero
  case finished => exact ⟨rfl, hend⟩
  all_goals omega

end Client

/-! ### What may pass a recovery -/

/-- The stream has been asked and has answered. -/
def StreamProbe.isLatest : StreamProbe → Bool
  | .latest _ => true
  | _ => false

/-- The greatest number that a recovery has read. -/
def Recovery.latestRead (r : Recovery) (probe : StreamProbe) (db : Db) : ℕ :=
  recoveredLatestSeq probe 0 { db with draft := r.draft }

/-- A number above all that recovery has read comes to a store that it has read already: to the
draft, before the stream has answered or after that, or to the stream. -/
def Overtakes (cfg : Settings) (w : World) : Action → Prop
  | .probeStream access => ∃ r ∈ w.recovery, ∃ d ∈ w.db.draft,
      r.latestRead (w.stream.probe access) w.db < d.seq
  | a => ∃ r ∈ w.recovery, ∃ probe ∈ r.probe, ∃ w' ∈ w.step cfg a,
      (∃ d ∈ w'.db.draft, d ∉ w.db.draft ∧ r.latestRead probe w.db < d.seq) ∨
      probe.isLatest = true ∧ ∃ e ∈ w'.stream.entries, e ∉ w.stream.entries ∧
        r.latestRead probe w.db < e.seq

instance (cfg : Settings) (w : World) (a : Action) : Decidable (Overtakes cfg w a) := by
  induction a using Action.casesOn <;> dsimp only [Overtakes] <;> infer_instance

/-- The invariant of a recovery that nothing has overtaken: the lease is still expired, and once the
stream was asked, the draft and a stream that has answered hold no number that was not read. -/
structure NotOvertaken (w : World) : Prop where
  expired : ∀ r ∈ w.recovery, leaseExpired r.now w.db = true
  draft : ∀ r ∈ w.recovery, ∀ probe ∈ r.probe, ∀ d ∈ w.db.draft, d.seq ≤ r.latestRead probe w.db
  stream : ∀ r ∈ w.recovery, ∀ probe ∈ r.probe, probe.isLatest = true →
    ∀ e ∈ w.stream.entries, e.seq ≤ r.latestRead probe w.db

theorem notOvertaken_of_none (h : w.recovery = none) : NotOvertaken w := by
  constructor <;> rw [h] <;> exact nofun

theorem Recovery.latestRead_congr {db db' : Db} (h : db'.events = db.events) (r : Recovery)
    (probe : StreamProbe) : r.latestRead probe db' = r.latestRead probe db := by
  unfold Recovery.latestRead recoveredLatestSeq getNextRunEventSeq
  dsimp only
  rw [h]

theorem NotOvertaken.step {a : Action} (h : NotOvertaken w) (hw : WorldInv cfg w)
    (hnot : ¬Overtakes cfg w a) (hstep : w.step cfg a = some w') : NotOvertaken w' := by
  rcases World.step_recovery hstep with hnone | ⟨now, hexpired, rfl⟩ |
    ⟨access, r, rfl, hr, rfl⟩ | ⟨hsame, hrun, hevents, hprobe⟩
  · exact notOvertaken_of_none hnone
  · refine ⟨fun r hr => ?_, fun r hr probe hp => ?_, fun r hr probe hp => ?_⟩ <;> cases hr
    · exact hexpired
    · cases hp
    · cases hp
  · refine ⟨fun r' hr' => ?_, fun r' hr' probe hp d hd => ?_,
      fun r' hr' probe hp hlatest e he => ?_⟩
      <;> cases hr'
    · exact h.expired r hr
    · cases hp
      exact Nat.not_lt.mp fun hlt => hnot ⟨r, hr, d, hd, hlt⟩
    · cases hp
      cases access with
      | readable => exact (hw.streamOrdered.seq_le_latestSeq he).trans (le_max_right _ _)
      | _ => cases hlatest
  · -- the recovery waits
    have hblame : ∀ r ∈ w.recovery, ∀ probe ∈ r.probe,
        ¬((∃ d ∈ w'.db.draft, d ∉ w.db.draft ∧ r.latestRead probe w.db < d.seq) ∨
          probe.isLatest = true ∧ ∃ e ∈ w'.stream.entries, e ∉ w.stream.entries ∧
            r.latestRead probe w.db < e.seq) := by
      intro r hr probe hp hlate
      refine hnot ?_
      cases a with
      | probeStream access => exact absurd rfl (hprobe access)
      | _ => exact ⟨r, hr, probe, hp, w', hstep, hlate⟩
    refine ⟨fun r hr => ?_, fun r hr probe hp d hd => ?_, fun r hr probe hp hlatest e he => ?_⟩
      <;> rw [hsame] at hr
    · have hexpired := h.expired r hr
      rwa [leaseExpired, hrun]
    · rw [r.latestRead_congr hevents]
      by_cases hold : d ∈ w.db.draft
      · exact h.draft r hr probe hp d hold
      · exact Nat.not_lt.mp fun hlt => hblame r hr probe hp (.inl ⟨d, hd, hold, hlt⟩)
    · rw [r.latestRead_congr hevents]
      by_cases hold : e ∈ w.stream.entries
      · exact h.stream r hr probe hp hlatest e hold
      · exact Nat.not_lt.mp fun hlt => hblame r hr probe hp (.inr ⟨hlatest, e, he, hold, hlt⟩)

/-! ### The number recovery picks -/

/-- What the number of the terminal event is above, for each answer of the stream: everything in
the three stores when the stream can be read, and everything PostgreSQL knows of with the gap in
between when it cannot. -/
def FreshSeq (cfg : Settings) (w : World) (seq : ℕ) : StreamProbe → Prop
  | .latest _ => ∀ known ∈ w.knownSeqs, known < seq
  | .failed => ∀ known ∈ w.db.knownSeqs, known + cfg.uncertainStreamSeqGap + 1 ≤ seq
  | .absent => ∀ known ∈ w.db.knownSeqs, known < seq

theorem NotOvertaken.freshSeq (h : NotOvertaken w) {r : Recovery} {probe : StreamProbe}
    (hr : w.recovery = some r) (hprobe : r.probe = some probe) :
    FreshSeq cfg w (recoveredLatestSeq probe cfg.uncertainStreamSeqGap
      { w.db with draft := r.draft } + 1) probe := by
  have hdb : ∀ known ∈ w.db.knownSeqs, known ≤ r.latestRead probe w.db := by
    intro known hknown
    rcases List.mem_append.mp hknown with hrow | hdraft
    · obtain ⟨row, hmem, rfl⟩ := List.mem_map.mp hrow
      exact @seq_le_recoveredLatestSeq probe 0 { w.db with draft := r.draft } row hmem
    · obtain ⟨d, hd, rfl⟩ := Option.map_eq_some_iff.mp (Option.mem_toList.mp hdraft)
      exact h.draft r hr probe hprobe d hd
  cases probe with
  | absent => exact fun known hknown => Nat.lt_succ_of_le (hdb known hknown)
  | failed =>
    intro known hknown
    have hle := hdb known hknown
    have hgap : recoveredLatestSeq .failed cfg.uncertainStreamSeqGap
        { w.db with draft := r.draft } =
          r.latestRead .failed w.db + cfg.uncertainStreamSeqGap := rfl
    omega
  | latest =>
    intro known hknown
    refine Nat.lt_succ_of_le ?_
    rcases List.mem_append.mp hknown with hstored | hstream
    · exact hdb known hstored
    · obtain ⟨e, he, rfl⟩ := List.mem_map.mp hstream
      exact h.stream r hr _ hprobe rfl e he

/-- **A fresh terminal number.** In every interleaving of a run with its actors in which nothing
overtakes recovery, its commit appends a `run_failed` event. Its number is fresh (`FreshSeq`), and
with the stream readable it is above every event emitted so far if these are in the stream. A
client that connects then or at any later moment, at a number that is not above the fresh one's
bounds, has the event after three calls. -/
theorem recovery_seq_fresh_of_along {as : List Action}
    (hrun : StepSystem.run (World.step cfg) World.init as = some w)
    (halong : StepSystem.Along (World.step cfg) (fun w a => ¬Overtakes cfg w a) World.init as)
    (hstep : w.step cfg .recover = some w') :
    ∃ (r : Recovery) (probe : StreamProbe) (row : RunEventResponse),
      w.recovery = some r ∧ r.probe = some probe ∧ row.type = .runFailed ∧
      w'.db.events = w.db.events ++ [row] ∧ FreshSeq cfg w row.seq probe ∧
      (probe.isLatest = true → (∀ e ∈ w.worker.emitted, e ∈ w.stream.entries.map fun entry =>
        entry.toRunEvent) → ∀ e ∈ w.worker.emitted, e.seq < row.seq) ∧
      ∀ bs w'', StepSystem.run (World.step cfg) w' bs = some w'' → ∀ afterSeq < row.seq,
        row ∈ listRunEventsAfter w''.db afterSeq ∧
          ∀ cs s, StepSystem.run (Subscription.step cfg) (.open w'' afterSeq) cs = some s →
            cs.countP SubscriptionAction.isRead = 3 →
              s.reader.pc = .finished ∧ ∃ e ∈ s.reader.yielded, e.toRunEvent = row.toRunEvent := by
  have hinv := worldInv_of_run hrun
  have hpreserved : ∀ m a m', (WorldInv cfg m ∧ NotOvertaken m) → ¬Overtakes cfg m a →
      World.step cfg m a = some m' → WorldInv cfg m' ∧ NotOvertaken m' :=
    fun m a m' hm hblame hnext => ⟨hm.1.step hnext, hm.2.step hm.1 hblame hnext⟩
  let Kept (m : World) : Prop := WorldInv cfg m ∧ NotOvertaken m
  obtain ⟨-, hnot⟩ : Kept w :=
    StepSystem.run_invariant_along hpreserved ⟨worldInv_init, notOvertaken_of_none rfl⟩ halong hrun
  obtain ⟨now, draft, probe, hrecovery⟩ :
      ∃ now draft probe, w.recovery = some ⟨now, draft, some probe⟩ := by
    have hmove := World.move_of_step hstep
    simp only [World.move, World.workerStep, World.otherStep] at hmove
    split at hmove
    · next hrecovery => exact ⟨_, _, _, hrecovery⟩
    · cases hmove
  have hevents := recover_eq hrecovery (hnot.expired _ hrecovery) hstep
  have hfresh : FreshSeq cfg w _ _ := hnot.freshSeq hrecovery rfl
  dsimp only at hfresh
  generalize hrow : recoveredRow (recoveredLatestSeq probe cfg.uncertainStreamSeqGap
    { w.db with draft := draft } + 1) now = row at hevents
  have hseq : row.seq = recoveredLatestSeq probe cfg.uncertainStreamSeqGap
      { w.db with draft := draft } + 1 := by rw [← hrow]; rfl
  have htype : row.type = .runFailed := by rw [← hrow]; rfl
  rw [← hseq] at hfresh
  refine ⟨_, probe, row, hrecovery, rfl, htype, hevents, hfresh, fun hlatest hstored e he => ?_,
    fun bs w'' hlater => ?_⟩
  -- nothing was lost from the stream, so the probe has read the highest number
  · obtain ⟨entry, hentry, rfl⟩ := List.mem_map.mp (hstored e he)
    cases probe with
    | latest => exact hfresh _ (List.mem_append_right _ (List.mem_map_of_mem hentry))
    | _ => cases hlatest
  · have hpersists : ∀ m a m', (WorldInv cfg m ∧ row ∈ m.db.events) →
        World.step cfg m a = some m' → WorldInv cfg m' ∧ row ∈ m'.db.events :=
      fun m a m' hm hnext => ⟨hm.1.step hnext, World.events_subset_of_step hm.1 hnext hm.2⟩
    let Logged (m : World) : Prop := WorldInv cfg m ∧ row ∈ m.db.events
    have hstart : Logged w' := ⟨hinv.step hstep, by rw [hevents]; simp⟩
    have hkept : Logged w'' := StepSystem.run_invariant hpersists hstart hlater
    intro afterSeq hafter
    refine ⟨mem_listRunEventsAfter.mpr ⟨hkept.2, hafter⟩, fun cs s hclient hcalls => ?_⟩
    exact Subscription.receives hkept.1 hkept.2 (by rw [htype]; rfl) hafter hclient hcalls

/-- A worker that is gone after its second event, which reached the stream and not the draft. -/
def silentWorker : List Action :=
  [.claim "worker-1" 30 0, .prepare none, .listPersisted true, .publishPersisted true,
    .startStreaming,
    .emit (.textDelta "Hi"), .redisSink true 1, .postgresSink true 1, .draftSink true 1,
    .emit (.textDelta "!"), .redisSink true 2, .postgresSink true 2,
    .beginRecovery 100, .probeStream .readable]

theorem recovery_seq_fresh_of_along_silentWorker :
    ∃ w w' r row, StepSystem.run (World.step Settings.default) World.init silentWorker = some w ∧
      w.step Settings.default .recover = some w' ∧ w.recovery = some r ∧
      r.probe = some (.latest 3) ∧ w'.db.events = w.db.events ++ [row] ∧
      ∀ known ∈ w.knownSeqs, known < row.seq := by
  obtain ⟨w, hrun, henabled, hprobed⟩ :
      ∃ w, StepSystem.run (World.step Settings.default) World.init silentWorker = some w ∧
        (w.step Settings.default .recover).isSome = true ∧
        w.recovery.map Recovery.probe = some (some (.latest 3)) :=
    StepSystem.exists_run (by decide +kernel)
  obtain ⟨w', hstep⟩ := Option.isSome_iff_exists.mp henabled
  obtain ⟨r, probe, row, hr, hprobe, -, hevents, hfresh, -⟩ :=
    recovery_seq_fresh_of_along hrun (by decide +kernel) hstep
  obtain rfl : probe = .latest 3 := by
    rw [hr] at hprobed
    exact Option.eq_some_unique hprobe (Option.some.inj hprobed)
  exact ⟨w, w', r, row, hrun, hstep, hr, hprobe, hevents, hfresh⟩

/-- A worker whose lease expires while it streams. It appends its second event to the stream after
recovery has asked for the last number. -/
def overtakingWorker : List Action :=
  [.claim "worker-1" 30 0, .prepare none, .listPersisted true, .publishPersisted true,
    .startStreaming,
    .emit (.textDelta "Hi"), .redisSink true 1, .postgresSink true 1, .draftSink true 1,
    .beginRecovery 100, .probeStream .readable,
    .emit (.textDelta "!"), .redisSink true 101]

/-- The terminal event has the number of that event, and a client that has it never gets the
terminal event. -/
theorem recovery_seq_overtaken :
    ∃ w w', StepSystem.run (World.step Settings.default) World.init overtakingWorker = some w ∧
      w.step Settings.default .recover = some w' ∧
      (∀ e ∈ w.worker.emitted, e ∈ w.stream.entries.map fun entry => entry.toRunEvent) ∧
      w'.db.events.map (fun e => (e.seq, e.type)) = [(1, .runStarted), (3, .runFailed)] ∧
      3 ∈ w.knownSeqs ∧ listRunEventsAfter w'.db 3 = [] := by
  refine ⟨_, _, rfl, rfl, ?_, ?_, ?_, ?_⟩ <;> decide +kernel

end IChat
