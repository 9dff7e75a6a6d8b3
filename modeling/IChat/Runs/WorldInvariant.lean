import IChat.Runs.World

/-!
# What holds in every state of a run

`WorldInv` collects the facts about the rows, the stream, the draft and the worker that every
reader may rely on, in every state of every interleaving:

* the worker has emitted events numbered consecutively from its initial number, and an event
  still pending at a sink is the last one;
* the draft sink's memory and the draft row are folds of initial segments of what was emitted;
* a row of the log is the start event, a terminal event or an emitted event that is no delta;
* a stream entry is an emitted event or a copy of a row.

The steps of the actors fall into a few kinds (`control`, `withStream`, `withTx`, `withDraft`),
each of which preserves the invariant for one reason.
-/

namespace IChat

/-- The worker has read its initial number. -/
def Phase.isPrepared : Phase → Bool
  | .idle | .claimed => false
  | _ => true

/-- What the program counter says about the rest of the worker. -/
def PhaseInv (events : List RunEventResponse) (x : Executor) : Prop :=
  match x.phase with
  | .idle | .claimed | .publishing none _ => x.emitted = []
  | .publishing (some queue) _ => x.emitted = [] ∧ ∀ e ∈ queue, e ∈ events
  | .streaming => x.pendingDraft = none → x.accepted = x.emitted
  | .flushing outcome | .finalizing outcome => outcome.lastSeq = x.latestSeq
  | .failing _ _ eventSeq _ => eventSeq = x.latestSeq + 1
  | .publishingTerminal (some event) _ => ∃ row ∈ events, row.toRunEvent = event
  | _ => True

/-- The invariant of a run with its actors. -/
structure WorldInv (cfg : Settings) (w : World) : Prop where
  safe : LifecycleSafe w.db
  rowsNodup : (w.db.events.map fun e => e.seq).Nodup
  rowsOrigin : ∀ row ∈ w.db.events, row.type = .runStarted ∨ row.type.isTerminal = true ∨
    row.type.isDelta = false ∧ row.toRunEvent ∈ w.worker.emitted
  startedRow : w.worker.phase.isPrepared = true →
    ∀ row ∈ w.db.events, row.type = .runStarted → row.seq ≤ w.worker.initialSeq
  leftQueue : w.worker.phase ≠ .idle → w.db.run.status ≠ .queued
  phase : PhaseInv w.db.events w.worker
  emittedSeqs : w.worker.emitted.map (fun e => e.seq) =
    List.range' (w.worker.initialSeq + 1) w.worker.emitted.length
  latestSeq : w.worker.latestSeq = w.worker.initialSeq + w.worker.emitted.length
  forwarded : ∀ e ∈ w.worker.emitted, e.type.isForwarded = true
  pendingRedis : ∀ e ∈ w.worker.pendingRedis, w.worker.emitted.getLast? = some e.toRunEvent
  pendingPostgres : ∀ e ∈ w.worker.pendingPostgres, w.worker.emitted.getLast? = some e.toRunEvent
  pendingDraft : ∀ e ∈ w.worker.pendingDraft,
    w.worker.emitted = w.worker.accepted ++ [e.toRunEvent]
  accepted : w.worker.accepted <+: w.worker.emitted
  folded : w.worker.draftSink.Folded cfg.runStreamMaxlen w.worker.accepted
  draft : ∀ d ∈ w.db.draft, ∃ l, l <+: w.worker.accepted ∧ IsCheckpoint cfg.runStreamMaxlen l d
  streamOrdered : w.stream.Ordered
  streamKnown : ∀ e ∈ w.stream.entries, e.toRunEvent ∈ w.worker.emitted ∨
    ∃ row ∈ w.db.events, row.toRunEvent = e.toRunEvent

variable {cfg : Settings} {w w' : World} {a : Action}

theorem worldInv_init : WorldInv cfg World.init where
  safe := lifecycleSafe_init
  rowsNodup := List.nodup_nil
  rowsOrigin _ h := by cases h
  startedRow h := by cases h
  leftQueue h := absurd rfl h
  phase := rfl
  emittedSeqs := rfl
  latestSeq := rfl
  forwarded _ h := by cases h
  pendingRedis _ h := by cases h
  pendingPostgres _ h := by cases h
  pendingDraft _ h := by cases h
  accepted := List.prefix_rfl
  folded := DraftCheckpointSink.folded_init
  draft _ h := by cases h
  streamOrdered := EventStream.ordered_empty
  streamKnown _ h := by cases h

/-! ### Consequences -/

namespace WorldInv

theorem emitted_ascending (h : WorldInv cfg w) :
    SeqLog.Ascending RunEvent.seq w.worker.emitted := by
  have hrange : (w.worker.emitted.map fun e => e.seq).Pairwise (· < ·) := by
    rw [h.emittedSeqs]
    exact List.pairwise_lt_range'
  exact List.pairwise_map.mp hrange

/-- Emitted events are numbered above the initial number and up to the latest one. -/
theorem seq_bounds (h : WorldInv cfg w) {e : RunEvent} (he : e ∈ w.worker.emitted) :
    w.worker.initialSeq < e.seq ∧ e.seq ≤ w.worker.latestSeq := by
  have hmem : e.seq ∈ w.worker.emitted.map fun e => e.seq := List.mem_map_of_mem he
  rw [h.emittedSeqs, List.mem_range'_1] at hmem
  rw [h.latestSeq]
  omega

/-- The last emitted event has the latest number. -/
theorem seq_of_getLast? (h : WorldInv cfg w) {e : RunEvent}
    (he : w.worker.emitted.getLast? = some e) : e.seq = w.worker.latestSeq := by
  obtain ⟨init, hinit⟩ := List.getLast?_eq_some_iff.mp he
  have hseqs := h.emittedSeqs
  have hlatest := h.latestSeq
  rw [hinit, List.length_append, List.length_singleton] at hlatest
  rw [hinit, List.length_append, List.length_singleton, List.range'_concat, List.map_append,
    List.map_singleton] at hseqs
  have hlast := (List.append_inj' hseqs rfl).2
  simp only [List.cons.injEq, and_true] at hlast
  omega

/-- Before its terminal event, a run's log stays at or below the latest number. -/
theorem row_seq_le (h : WorldInv cfg w) (hprepared : w.worker.phase.isPrepared = true)
    {row : RunEventResponse} (hrow : row ∈ w.db.events) (htype : row.type.isTerminal = false) :
    row.seq ≤ w.worker.latestSeq := by
  rcases h.rowsOrigin row hrow with hstarted | hterminal | ⟨-, hemitted⟩
  · have hle := h.startedRow hprepared row hrow hstarted
    rw [h.latestSeq]
    omega
  · rw [hterminal] at htype
    cases htype
  · exact (h.seq_bounds hemitted).2

/-- The log has a terminal event exactly when the status is terminal. -/
theorem runHasTerminalEvent_eq (h : WorldInv cfg w) :
    runHasTerminalEvent w.db = w.db.run.status.isTerminal := by
  have hmem : runHasTerminalEvent w.db = true ↔ terminalTypes w.db.events ≠ [] := by
    simp [runHasTerminalEvent, terminalTypes, List.filter_eq_nil_iff]
  rw [Bool.eq_iff_iff, hmem, h.safe.terminal]
  cases hevent : w.db.run.status.terminalEvent <;> simp [RunStatus.isTerminal, hevent]

theorem emitted_eq_nil (h : WorldInv cfg w) (hphase : w.worker.phase.isPrepared = false) :
    w.worker.emitted = [] := by
  have hinv := h.phase
  unfold PhaseInv at hinv
  cases hp : w.worker.phase <;> rw [hp] at hphase hinv <;> first | exact hinv | cases hphase

/-- Nothing is pending while nothing has been emitted. -/
theorem pending_eq_none (h : WorldInv cfg w) (hnil : w.worker.emitted = []) :
    w.worker.pendingRedis = none ∧ w.worker.pendingPostgres = none ∧
      w.worker.pendingDraft = none ∧ w.worker.accepted = [] := by
  refine ⟨?_, ?_, ?_, List.prefix_nil.mp (hnil ▸ h.accepted)⟩
  · cases hp : w.worker.pendingRedis with
    | none => rfl
    | some e =>
      have := h.pendingRedis e hp
      rw [hnil] at this
      cases this
  · cases hp : w.worker.pendingPostgres with
    | none => rfl
    | some e =>
      have := h.pendingPostgres e hp
      rw [hnil] at this
      cases this
  · cases hp : w.worker.pendingDraft with
    | none => rfl
    | some e =>
      have := h.pendingDraft e hp
      rw [hnil] at this
      exact absurd this (by simp)

end WorldInv

/-! ### Kinds of steps -/

theorem PhaseInv.mono {events events' : List RunEventResponse} {x : Executor}
    (h : PhaseInv events x) (hsub : ∀ e ∈ events, e ∈ events') : PhaseInv events' x := by
  unfold PhaseInv at h ⊢
  split at h <;> first | exact h | skip
  · exact ⟨h.1, fun e he => hsub e (h.2 e he)⟩
  · obtain ⟨row, hrow, heq⟩ := h
    exact ⟨row, hsub row hrow, heq⟩

/-- What is true at a program counter. -/
theorem PhaseInv.of_phase {events : List RunEventResponse} {x : Executor} {phase : Phase}
    (h : PhaseInv events x) (hphase : x.phase = phase) :
    PhaseInv events { x with phase := phase } := by
  subst hphase
  exact h

/-- Outside the consumption of the agent's events, the program counter only speaks about what was
emitted. -/
theorem PhaseInv.congr {events : List RunEventResponse} {x y : Executor} (h : PhaseInv events x)
    (hne : x.phase ≠ .streaming) (hphase : y.phase = x.phase) (hemitted : y.emitted = x.emitted)
    (hlatest : y.latestSeq = x.latestSeq) : PhaseInv events y := by
  unfold PhaseInv at h ⊢
  rw [hphase, hemitted, hlatest]
  split at h <;> simp_all

namespace WorldInv

/-- The worker moves on without touching anything else. -/
theorem control (h : WorldInv cfg w) {before : Phase} (hbefore : w.worker.phase = before)
    {x : Executor} (phase : Phase) (cancel : Bool)
    (hx : x = { w.worker with phase := phase, cancel := cancel })
    (hprepared : phase.isPrepared = true → before.isPrepared = true)
    (hidle : phase ≠ .idle → before ≠ .idle)
    (hphase : PhaseInv w.db.events x) : WorldInv cfg { w with worker := x } := by
  subst hx hbefore
  exact { h with
    startedRow := fun hp => h.startedRow (hprepared hp)
    leftQueue := fun hp => h.leftQueue (hidle hp)
    phase := hphase }

/-- The stream changes to one whose entries are known. -/
theorem withStream (h : WorldInv cfg w) {s : EventStream} (hordered : s.Ordered)
    (hknown : ∀ e ∈ s.entries, e.toRunEvent ∈ w.worker.emitted ∨
      ∃ row ∈ w.db.events, row.toRunEvent = e.toRunEvent) :
    WorldInv cfg { w with stream := s } :=
  { h with streamOrdered := hordered, streamKnown := hknown }

/-- A known event is appended to the stream, or the append fails. -/
theorem withAppend (h : WorldInv cfg w) (event : RunEvent) (createdAt : Time) (ok : Bool)
    (hevent : event ∈ w.worker.emitted ∨ ∃ row ∈ w.db.events, row.toRunEvent = event) :
    WorldInv cfg { w with
      stream := if ok then (w.stream.append event createdAt).getD w.stream else w.stream } := by
  cases ok with
  | false => exact h
  | true =>
    simp only [if_true]
    cases happend : w.stream.append event createdAt with
    | none => exact h
    | some =>
      refine h.withStream (h.streamOrdered.append happend) fun e he => ?_
      rcases EventStream.mem_of_mem_append happend he with he | he
      · exact h.streamKnown e he
      · rw [Option.getD_some] at *
        rw [he]
        exact hevent

/-- Row numbers stay distinct when a transaction commits. -/
private theorem rowsNodup_of_effect (h : WorldInv cfg w) {tx : Tx} {db' : Db}
    (heff : tx.Effect w.db db') : (db'.events.map fun e => e.seq).Nodup := by
  rcases heff.rows with hevents | ⟨row, happend, -⟩
  · rw [hevents]
    exact h.rowsNodup
  · rw [happend.events, List.map_append, List.map_singleton]
    refine List.nodup_append.mpr ⟨h.rowsNodup, List.nodup_singleton _, fun n hn m hm => ?_⟩
    obtain ⟨e, he, rfl⟩ := List.mem_map.mp hn
    rw [List.mem_singleton.mp hm]
    exact happend.fresh e he

/-- What a transaction other than a claim may add to the log, when a sink's event has been
emitted. -/
private theorem new_rows {tx : Tx} {db' : Db} (heff : tx.Effect w.db db')
    (hclaim : ∀ workerId lease now, tx ≠ .claim workerId lease now)
    (hsink : ∀ sink e now, tx = .sinkEmit sink e now → e.toRunEvent ∈ w.worker.emitted) :
    ∀ row ∈ db'.events, row ∈ w.db.events ∨ row.type.isTerminal = true ∨
      row.type.isDelta = false ∧ row.toRunEvent ∈ w.worker.emitted := by
  rcases heff.rows with hevents | ⟨row, happend, hkind⟩
  · rw [hevents]
    exact fun row hrow => .inl hrow
  · intro row' hrow'
    rw [happend.events] at hrow'
    rcases List.mem_append.mp hrow' with hrow' | hrow'
    · exact .inl hrow'
    · rw [List.mem_singleton.mp hrow']
      rcases hkind with ⟨-, -, -, _, _, _, htx⟩ | ⟨hterminal, -⟩ |
        ⟨sink, e, now, htx, hdelta, heq, -⟩
      · exact absurd htx (hclaim _ _ _)
      · exact .inr (.inl hterminal)
      · exact .inr (.inr ⟨hdelta, heq ▸ hsink sink e now htx⟩)

/-- A transaction other than a claim or a write of the draft commits. -/
theorem withTx (h : WorldInv cfg w) {tx : Tx} {db' : Db} (hexec : tx.exec w.db = .ok db')
    (hclaim : ∀ workerId lease now, tx ≠ .claim workerId lease now)
    (hupsert : ∀ seq snapshot events now, tx ≠ .upsertRunDraft seq snapshot events now)
    (hsink : ∀ sink e now, tx = .sinkEmit sink e now → e.toRunEvent ∈ w.worker.emitted) :
    WorldInv cfg { w with db := db' } := by
  have heff := Tx.exec_effect hexec
  have hrows := new_rows heff hclaim hsink
  exact { h with
    safe := h.safe.effect heff
    rowsNodup := h.rowsNodup_of_effect heff
    rowsOrigin := fun row hrow => by
      rcases hrows row hrow with hold | hnew
      · exact h.rowsOrigin row hold
      · exact .inr hnew
    startedRow := fun hprepared row hrow htype => by
      rcases hrows row hrow with hold | hterminal | ⟨-, hemitted⟩
      · exact h.startedRow hprepared row hold htype
      · rw [htype] at hterminal
        cases hterminal
      · have hforwarded := h.forwarded _ hemitted
        rw [htype] at hforwarded
        cases hforwarded
    leftQueue := fun hidle => heff.status_ne_queued (h.leftQueue hidle)
    phase := h.phase.mono fun e he => heff.events_subset he
    draft := fun d hd => by
      rcases heff.draft_eq hupsert with hsame | hnone
      · exact h.draft d (hsame ▸ hd)
      · rw [hnone] at hd
        cases hd
    streamKnown := fun e he => by
      rcases h.streamKnown e he with hemitted | ⟨row, hrow, heq⟩
      · exact .inl hemitted
      · exact .inr ⟨row, heff.events_subset hrow, heq⟩ }

/-- A claim, a write of the draft, or a row of the worker's sink. -/
def writesRun : Tx → Bool
  | .claim .. | .upsertRunDraft .. | .sinkEmit .. => true
  | _ => false

/-- Any other transaction commits. -/
theorem withOther (h : WorldInv cfg w) {tx : Tx} {db' : Db} (hexec : tx.exec w.db = .ok db')
    (hother : writesRun tx = false) : WorldInv cfg { w with db := db' } := by
  refine h.withTx hexec (fun _ _ _ => ?_) (fun _ _ _ _ => ?_) fun _ _ _ => ?_
  all_goals
    rintro rfl
    cases hother

/-- A transaction of somebody else, committed or rolled back. -/
theorem withCommit (h : WorldInv cfg w) (tx : Tx) (hother : writesRun tx = false) :
    WorldInv cfg { w with db := commit w.db tx } := by
  unfold commit
  split
  · rename_i db' hexec
    exact h.withOther hexec hother
  · exact h

/-- A call of the draft sink that accepts nothing new. -/
theorem withDraft (h : WorldInv cfg w) {s : DraftCheckpointSink} {db' : Db}
    (hsink : s.Folded cfg.runStreamMaxlen w.worker.accepted)
    (hdb : DraftStored cfg.runStreamMaxlen w.worker.accepted w.db db') :
    WorldInv cfg { w with db := db', worker := { w.worker with draftSink := s } } := by
  rcases hdb with rfl | ⟨d, hd, rfl⟩
  · exact { h with folded := hsink }
  · exact { h with
      safe := ⟨h.safe.terminal, h.safe.lease, h.safe.message⟩
      folded := hsink
      draft := fun d' hd' => by
        obtain rfl : d = d' := Option.some.inj hd'
        exact ⟨_, List.prefix_rfl, hd⟩ }

/-- The worker claims the run. -/
private theorem step_claim (h : WorldInv cfg w) {workerId : String} {leaseSeconds : ℕ} {now : Time}
    {db' : Db} (hclaim : claimNextQueuedRun workerId leaseSeconds now w.db = .ok (db', true)) :
    WorldInv cfg { w with
      db := db', worker := { w.worker with workerId := workerId, phase := .claimed } } := by
  have hexec : (Tx.claim workerId leaseSeconds now).exec w.db = .ok db' := by
    simp [Tx.exec, hclaim, Except.map]
  have heff := Tx.exec_effect hexec
  obtain ⟨hqueued, row, happend, htype, hleft, hdraft⟩ : w.db.run.status = .queued ∧
      ∃ row, RowAppended w.db db' row ∧ row.type = .runStarted ∧ db'.run.status ≠ .queued ∧
        db'.draft = w.db.draft := by
    unfold claimNextQueuedRun at hclaim
    split at hclaim
    · rename_i hqueued
      obtain ⟨db₁, happend, hok⟩ := bind_eq_ok_iff.mp hclaim
      cases hok
      obtain ⟨row, htype, -, -, hpos, -, hfresh, rfl⟩ := appendRunEvent_eq_ok happend
      exact ⟨hqueued, row, ⟨rfl, hpos, hfresh⟩, htype, RunStatus.noConfusion, rfl⟩
    · cases hclaim
  have hidle : w.worker.phase = .idle := by
    by_contra hne
    exact h.leftQueue hne hqueued
  have hnil : w.worker.emitted = [] := h.emitted_eq_nil (by rw [hidle]; rfl)
  exact { h with
    safe := h.safe.effect heff
    rowsNodup := h.rowsNodup_of_effect heff
    rowsOrigin := fun row' hrow' => by
      rw [happend.events] at hrow'
      rcases List.mem_append.mp hrow' with hrow' | hrow'
      · exact h.rowsOrigin row' hrow'
      · rw [List.mem_singleton.mp hrow']
        exact .inl htype
    startedRow := fun hprepared => by cases hprepared
    leftQueue := fun _ => hleft
    phase := hnil
    draft := fun d hd => h.draft d (hdraft ▸ hd)
    streamKnown := fun e he => by
      rcases h.streamKnown e he with hemitted | ⟨row', hrow', heq⟩
      · exact .inl hemitted
      · exact .inr ⟨row', heff.events_subset hrow', heq⟩ }

/-- The worker reads the number after which it will emit. -/
private theorem step_prepare (h : WorldInv cfg w) {buildError : Option String}
    (hphase : w.worker.phase = .claimed) :
    WorldInv cfg { w with worker := { w.worker with
      initialSeq := getNextRunEventSeq w.db - 1
      latestSeq := getNextRunEventSeq w.db - 1
      phase := .publishing none buildError } } := by
  have hnil : w.worker.emitted = [] := h.emitted_eq_nil (by rw [hphase]; rfl)
  exact { h with
    startedRow := fun _ row hrow _ => Nat.le_sub_one_of_lt (lt_getNextRunEventSeq hrow)
    leftQueue := fun _ => h.leftQueue (by rw [hphase]; exact Phase.noConfusion)
    phase := hnil
    emittedSeqs := by rw [hnil]; rfl
    latestSeq := by rw [hnil]; rfl }

/-- The worker hands the next event to its sinks. -/
private theorem step_emit (h : WorldInv cfg w) {e : SinkEvent}
    (hphase : w.worker.phase = .streaming)
    (hdone : w.worker.fanoutDone = true) (hseq : e.seq = w.worker.latestSeq + 1) :
    WorldInv cfg { w with worker := { w.worker with
      latestSeq := w.worker.latestSeq + 1
      pendingRedis := some e
      pendingPostgres := some e
      pendingDraft := some e
      emitted := w.worker.emitted ++ [e.toRunEvent] } } := by
  have hpending : w.worker.pendingDraft = none := by
    simp only [Executor.fanoutDone, Bool.and_eq_true, Option.isNone_iff_eq_none] at hdone
    exact hdone.2
  have hsynced : w.worker.accepted = w.worker.emitted := h.phase.of_phase hphase hpending
  have hseqs : (w.worker.emitted ++ [e.toRunEvent]).map (fun e => e.seq) =
      List.range' (w.worker.initialSeq + 1) (w.worker.emitted ++ [e.toRunEvent]).length := by
    rw [List.map_append, List.map_singleton, h.emittedSeqs, List.length_append,
      List.length_singleton, List.range'_concat, hseq, h.latestSeq]
    congr 2
    omega
  have hlast : ∀ e' ∈ some e,
      (w.worker.emitted ++ [e.toRunEvent]).getLast? = some e'.toRunEvent := by
    intro e' he'
    obtain rfl : e = e' := Option.some.inj he'
    simp
  exact { h with
    rowsOrigin := fun row hrow => by
      rcases h.rowsOrigin row hrow with hstarted | hterminal | ⟨hdelta, hemitted⟩
      · exact .inl hstarted
      · exact .inr (.inl hterminal)
      · exact .inr (.inr ⟨hdelta, List.mem_append_left _ hemitted⟩)
    phase := by
      unfold PhaseInv
      rw [hphase]
      intro hnone
      cases hnone
    emittedSeqs := hseqs
    latestSeq := by
      rw [List.length_append, List.length_singleton, h.latestSeq]
      exact Nat.add_assoc _ _ _
    forwarded := fun e' he' => by
      rcases List.mem_append.mp he' with he' | he'
      · exact h.forwarded e' he'
      · rw [List.mem_singleton.mp he']
        exact e.forwarded
    pendingRedis := hlast
    pendingPostgres := hlast
    pendingDraft := fun e' he' => by
      obtain rfl : e = e' := Option.some.inj he'
      rw [hsynced]
    accepted := h.accepted.trans (List.prefix_append _ _)
    streamKnown := fun e' he' => by
      rcases h.streamKnown e' he' with hemitted | hrow
      · exact .inl (List.mem_append_left _ hemitted)
      · exact .inr hrow }

/-- Raising keeps what the program counter says. -/
theorem PhaseInv.raise {events : List RunEventResponse} {x : Executor} (message : String)
    (h : x.phase ≠ .streaming → PhaseInv events x) : PhaseInv events (x.raise message) := by
  unfold Executor.raise
  by_cases hphase : x.phase = .streaming
  · simp [PhaseInv, hphase]
  · have hinv := h hphase
    unfold PhaseInv at hinv ⊢
    simpa [hphase] using hinv

theorem phase_raise (x : Executor) (message : String) :
    (x.raise message).phase = x.phase ∨
      x.phase = .streaming ∧ (x.raise message).phase = .closing message := by
  unfold Executor.raise
  by_cases hphase : x.phase = .streaming <;> simp [hphase]

/-- The worker leaves the agent's stream with an exception. -/
theorem raise (h : WorldInv cfg w) (message : String) :
    WorldInv cfg { w with worker := w.worker.raise message } := by
  refine h.control rfl (w.worker.raise message).phase true rfl ?_ ?_
    (PhaseInv.raise _ fun _ => h.phase)
  · rcases phase_raise w.worker message with hsame | ⟨hstreaming, -⟩
    · rw [hsame]
      exact id
    · rw [hstreaming]
      exact fun _ => rfl
  · rcases phase_raise w.worker message with hsame | ⟨hstreaming, -⟩
    · rw [hsame]
      exact id
    · rw [hstreaming]
      exact fun _ => Phase.noConfusion

/-- The draft sink takes the event that is pending at it. The worker `y` then goes on, or has
raised. -/
private theorem step_draftSink (h : WorldInv cfg w) {e : SinkEvent}
    (hpending : w.worker.pendingDraft = some e) (ok : Bool) (now : Time) :
    let r := w.worker.draftSink.emit cfg.draft e ok now w.db
    let x : Executor := { w.worker with
      pendingDraft := none
      draftSink := r.sink
      accepted := if w.worker.draftSink.backgroundError then w.worker.accepted
        else w.worker.accepted ++ [e.toRunEvent] }
    WorldInv cfg { w with
      db := r.db, worker := if r.raised then x.raise "event sink failed" else x } := by
  intro r x
  have hemitted := h.pendingDraft e hpending
  -- what the sink has accepted, and what it may have stored
  obtain ⟨haccepted, hfolded, hstored, hsynced⟩ :
      x.accepted <+: w.worker.emitted ∧ r.sink.Folded cfg.runStreamMaxlen x.accepted ∧
        DraftStored cfg.runStreamMaxlen x.accepted w.db r.db ∧
        (r.raised = false → x.accepted = w.worker.emitted) := by
    cases hb : w.worker.draftSink.backgroundError with
    | true =>
      have hr : r = ⟨w.worker.draftSink, w.db, true⟩ :=
        DraftCheckpointSink.emit_of_backgroundError hb
      have hx : x.accepted = w.worker.accepted := by simp [x, hb]
      rw [hr, hx]
      exact ⟨h.accepted, h.folded, .inl rfl, fun hraised => by cases hraised⟩
    | false =>
      have hx : x.accepted = w.worker.accepted ++ [e.toRunEvent] := by simp [x, hb]
      have hfolded : w.worker.draftSink.Folded cfg.draft.maxEvents w.worker.accepted := h.folded
      obtain ⟨hsink, hdb⟩ : r.sink.Folded cfg.draft.maxEvents
        (w.worker.accepted ++ [e.toRunEvent]) ∧
          DraftStored cfg.draft.maxEvents (w.worker.accepted ++ [e.toRunEvent]) w.db r.db :=
        DraftCheckpointSink.emit_spec hb hfolded
      rw [hx, ← hemitted]
      exact ⟨List.prefix_rfl, hemitted ▸ hsink, hemitted ▸ hdb, fun _ => rfl⟩
  have hgrown : w.worker.accepted <+: x.accepted := by
    simp only [x]
    split
    · exact List.prefix_rfl
    · exact List.prefix_append _ _
  have hdraft : ∀ d ∈ w.db.draft, ∃ l, l <+: x.accepted ∧
      IsCheckpoint cfg.runStreamMaxlen l d := fun d hd =>
    let ⟨l, hl, hcheckpoint⟩ := h.draft d hd
    ⟨l, hl.trans hgrown, hcheckpoint⟩
  -- the rest of the invariant does not look at what the sink did
  have hworld : ∀ (phase : Phase) (cancel : Bool), (phase = w.worker.phase ∨
      w.worker.phase = .streaming ∧ ∃ message, phase = .closing message) →
      PhaseInv w.db.events { x with phase := phase, cancel := cancel } →
      WorldInv cfg
        { w with db := r.db, worker := { x with phase := phase, cancel := cancel } } := by
    intro phase cancel hphase hinv
    have hprepared : phase.isPrepared = true → w.worker.phase.isPrepared = true := by
      rcases hphase with rfl | ⟨hstreaming, -⟩
      · exact id
      · rw [hstreaming]
        exact fun _ => rfl
    have hidle : phase ≠ .idle → w.worker.phase ≠ .idle := by
      rcases hphase with rfl | ⟨hstreaming, -⟩
      · exact id
      · rw [hstreaming]
        exact fun _ => Phase.noConfusion
    rcases hstored with hsame | ⟨d, hd, hsame⟩
    · rw [hsame]
      exact { h with
        startedRow := fun hp => h.startedRow (hprepared hp)
        leftQueue := fun hp => h.leftQueue (hidle hp)
        phase := hinv
        pendingDraft := fun _ hnone => by cases hnone
        accepted := haccepted
        folded := hfolded
        draft := hdraft }
    · rw [hsame]
      exact { h with
        safe := ⟨h.safe.terminal, h.safe.lease, h.safe.message⟩
        startedRow := fun hp => h.startedRow (hprepared hp)
        leftQueue := fun hp => h.leftQueue (hidle hp)
        phase := hinv
        pendingDraft := fun _ hnone => by cases hnone
        accepted := haccepted
        folded := hfolded
        draft := fun d' hd' => by
          obtain rfl : d = d' := Option.some.inj hd'
          exact ⟨_, List.prefix_rfl, hd⟩ }
  have hinv : w.worker.phase ≠ .streaming → PhaseInv w.db.events x := fun hne =>
    h.phase.congr hne rfl rfl rfl
  cases hraised : r.raised with
  | true =>
    rw [if_pos rfl]
    refine hworld (x.raise "event sink failed").phase true ?_ (PhaseInv.raise _ hinv)
    rcases phase_raise x "event sink failed" with hsame | ⟨hstreaming, hclosing⟩
    · exact .inl hsame
    · exact .inr ⟨hstreaming, _, hclosing⟩
  | false =>
    rw [if_neg (by decide)]
    refine hworld w.worker.phase w.worker.cancel (.inl rfl) ?_
    by_cases hstreaming : w.worker.phase = .streaming
    · unfold PhaseInv
      simp only [hstreaming]
      exact fun _ => hsynced hraised
    · exact hinv hstreaming

/-- A draft flush, by a worker that then moves on. -/
private theorem step_flush (h : WorldInv cfg w) {before : Phase} (hbefore : w.worker.phase = before)
    (ok : Bool) (now : Time) (timer : Bool) (phase : Phase) (cancel : Bool)
    (hprepared : phase.isPrepared = true → before.isPrepared = true)
    (hidle : phase ≠ .idle → before ≠ .idle)
    (hphase : PhaseInv w.db.events { w.worker with phase := phase, cancel := cancel }) :
    WorldInv cfg { w with
      db := (w.worker.draftSink.flush ok now w.db).db
      worker := { w.worker with
        draftSink := { (w.worker.draftSink.flush ok now w.db).sink with timer := timer }
        phase := phase, cancel := cancel } } := by
  obtain ⟨hsink, hdb⟩ := DraftCheckpointSink.flush_spec h.folded ok now w.db
  exact (h.withDraft (hsink.setTimer timer) hdb).control hbefore phase cancel rfl
    hprepared hidle (by
    rcases hdb with hdb | ⟨d, -, hdb⟩ <;> rw [hdb] <;> exact hphase)

theorem workerStep (h : WorldInv cfg w) (hstep : w.workerStep cfg a = some w') :
    WorldInv cfg w' := by
  cases a with
  | claim =>
    simp only [World.workerStep] at hstep
    split at hstep <;> cases hstep
    · rename_i hclaim
      exact h.step_claim hclaim
    · exact h
  | prepare =>
    simp only [World.workerStep] at hstep
    split at hstep <;> cases hstep
    rename_i hphase
    exact h.step_prepare hphase
  | listPersisted =>
    simp only [World.workerStep] at hstep
    split at hstep <;> cases hstep
    rename_i buildError hphase
    -- what is listed are rows of the run, so publishing them makes no number known
    refine h.control hphase _ _ rfl (fun _ => rfl) (by simp)
      ⟨h.phase.of_phase hphase, fun e he => ?_⟩
    split at he
    · exact (mem_listRunEventsAfter.mp he).1
    · cases he
  | publishPersisted =>
    simp only [World.workerStep] at hstep
    split at hstep
    · rename_i event queue buildError hphase
      obtain ⟨hnil, hqueue⟩ : w.worker.emitted = [] ∧
          ∀ e ∈ event :: queue, e ∈ w.db.events := h.phase.of_phase hphase
      -- published or not, an event only leaves the queue
      have hmoves : ∀ {w₁ : World} (queue' : List RunEventResponse), WorldInv cfg w₁ →
          w₁.worker = w.worker → w₁.db = w.db → (∀ e ∈ queue', e ∈ w.db.events) →
          WorldInv cfg { w₁ with
            worker := { w.worker with phase := .publishing (some queue') buildError } } := by
        intro w₁ queue' h₁ hworker hdb hsub
        rw [← hworker]
        refine h₁.control ((congrArg Executor.phase hworker).trans hphase) _ _ rfl
          (fun _ => rfl) (by simp) ⟨?_, ?_⟩
        · simpa [hworker] using hnil
        · simpa [hdb] using hsub
      split at hstep <;> cases hstep
      · rename_i stream happend
        split at happend
        · have hknown : event.toRunEvent ∈ w.worker.emitted ∨
              ∃ row ∈ w.db.events, row.toRunEvent = event.toRunEvent :=
            .inr ⟨event, hqueue event List.mem_cons_self, rfl⟩
          have hstream := h.withAppend event.toRunEvent event.createdAt true hknown
          simp only [if_true, happend, Option.getD_some] at hstream
          exact hmoves queue hstream rfl rfl fun e he => hqueue e (List.mem_cons_of_mem _ he)
        · cases happend
      · exact hmoves [] h rfl rfl fun e he => by cases he
    · cases hstep
  | startStreaming =>
    simp only [World.workerStep] at hstep
    split at hstep <;> cases hstep
    all_goals
      rename_i hphase
      obtain ⟨hnil, -⟩ : w.worker.emitted = [] ∧ _ := h.phase.of_phase hphase
    · refine h.control hphase _ _ rfl (fun _ => rfl) (by simp) fun _ => ?_
      show w.worker.accepted = w.worker.emitted
      rw [hnil, (h.pending_eq_none hnil).2.2.2]
    -- the agent was never built: the outcome is stored one above the latest number
    · refine h.control hphase _ _ rfl (fun _ => rfl) (by simp) ?_
      show w.worker.initialSeq + 1 = w.worker.latestSeq + 1
      rw [h.latestSeq, hnil]
      rfl
  | emit =>
    simp only [World.workerStep] at hstep
    split at hstep
    · rename_i henabled
      obtain ⟨hphase, -, hdone⟩ := henabled
      split at hstep <;> cases hstep
      rename_i e he
      exact h.step_emit hphase hdone (toRunEvent_seq he)
    · cases hstep
  | redisSink ok now =>
    simp only [World.workerStep] at hstep
    split at hstep <;> cases hstep
    rename_i e hpending
    -- the sink publishes the event emitted last
    have hknown : e.toRunEvent ∈ w.worker.emitted ∨
        ∃ row ∈ w.db.events, row.toRunEvent = e.toRunEvent :=
      .inl (List.mem_of_getLast? (h.pendingRedis e hpending))
    have hstream := h.withAppend e.toRunEvent now ok hknown
    exact { hstream with pendingRedis := fun _ hnone => by cases hnone }
  | postgresSink ok now =>
    simp only [World.workerStep] at hstep
    split at hstep
    · rename_i e hpending
      have hmem : e.toRunEvent ∈ w.worker.emitted :=
        List.mem_of_getLast? (h.pendingPostgres e hpending)
      have hidle : WorldInv cfg { w with worker := { w.worker with pendingPostgres := none } } :=
        { h with pendingPostgres := fun _ hnone => by cases hnone }
      split at hstep <;> cases hstep
      · rename_i r hemit
        split at hemit
        · have hexec : (Tx.sinkEmit w.worker.postgresSink e now).exec w.db = .ok r.db := by
            simp [Tx.exec, hemit, Except.map]
          have htx := hidle.withTx hexec (fun _ _ _ => Tx.noConfusion)
            (fun _ _ _ _ => Tx.noConfusion) fun sink e' now' htx => by
              cases htx
              exact hmem
          exact { htx with phase := htx.phase }
        · cases hemit
      · exact hidle.raise "event sink failed"
    · cases hstep
  | draftSink ok now =>
    simp only [World.workerStep] at hstep
    split at hstep <;> cases hstep
    rename_i e hpending
    exact h.step_draftSink hpending ok now
  | draftTimer ok now =>
    simp only [World.workerStep] at hstep
    split at hstep <;> cases hstep
    obtain ⟨hsink, hdb⟩ := DraftCheckpointSink.timerFires_spec h.folded ok now w.db
    have hdraft := h.withDraft hsink hdb
    exact { hdraft with phase := hdraft.phase }
  | heartbeat ok leaseSeconds now =>
    simp only [World.workerStep] at hstep
    split at hstep
    · split at hstep <;> cases hstep
      · have hexec : (Tx.renewLease (some w.worker.workerId) leaseSeconds now).exec w.db =
            .ok (renewLease (some w.worker.workerId) leaseSeconds now w.db).1 := rfl
        have htx := h.withOther hexec rfl
        exact { htx with phase := htx.phase }
      · exact { h with phase := h.phase }
    · cases hstep
  | cancelHint =>
    simp only [World.workerStep] at hstep
    split at hstep <;> cases hstep
    exact { h with phase := h.phase }
  | endStream =>
    simp only [World.workerStep] at hstep
    split at hstep <;> cases hstep
    rename_i henabled
    exact h.control henabled.1 _ _ rfl (fun _ => rfl) (by simp) rfl
  | agentRaises message =>
    simp only [World.workerStep] at hstep
    split at hstep <;> cases hstep
    exact h.raise message
  | flushSinks ok now =>
    simp only [World.workerStep] at hstep
    split at hstep <;> cases hstep
    rename_i outcome hphase
    have hlast : outcome.lastSeq = w.worker.latestSeq := h.phase.of_phase hphase
    refine h.step_flush hphase ok now _ _ _ (fun _ => rfl) (by simp) ?_
    split
    · exact trivial
    · exact hlast
  | closeSinks ok now =>
    simp only [World.workerStep] at hstep
    split at hstep <;> cases hstep
    rename_i message hphase
    exact h.step_flush hphase ok now false _ _ (fun _ => rfl) (by simp) rfl
  | finalize ok metadata timing now =>
    simp only [World.workerStep] at hstep
    split at hstep
    · rename_i outcome hphase
      split at hstep <;> cases hstep
      · rename_i db terminal hfinal
        split at hfinal
        · have hexec : (Tx.finalizeResult outcome metadata timing now).exec w.db = .ok db := by
            simp [Tx.exec, hfinal, Except.map]
          refine (h.withOther hexec rfl).control hphase _ _ rfl (fun _ => rfl) (by simp) ?_
          cases terminal with
          | none => exact trivial
          | some => exact (finalizeResult_spec hfinal).2 _ rfl
        · cases hfinal
      · exact h.control hphase _ _ rfl (fun _ => rfl) (by simp) trivial
    · cases hstep
  | markFailed ok timing now =>
    simp only [World.workerStep] at hstep
    split at hstep
    · rename_i code message eventSeq deletesDraft hphase
      split at hstep <;> cases hstep
      · rename_i db terminal hfail
        split at hfail
        · have hexec : (Tx.markFailedOrCancelled code message eventSeq timing now).exec w.db =
              .ok db := by
            simp [Tx.exec, hfail, Except.map]
          refine (h.withOther hexec rfl).control hphase _ _ rfl (fun _ => rfl) (by simp) ?_
          cases terminal with
          | none => exact trivial
          | some => exact (markFailedOrCancelled_spec hfail).2 _ rfl
        · cases hfail
      · exact h.control hphase _ _ rfl (fun _ => rfl) (by simp) trivial
    · cases hstep
  | publishTerminal ok now =>
    simp only [World.workerStep] at hstep
    split at hstep <;> cases hstep
    rename_i terminal deletesDraft hphase
    -- the phase after a terminal event promises nothing about the world
    have hnext : ∀ {w₁ : World}, WorldInv cfg w₁ → w₁.worker = w.worker →
        WorldInv cfg { w₁ with worker := { w.worker with
          phase := if deletesDraft then .flushingDraft else .finished } } := by
      intro w₁ h₁ hworker
      rw [← hworker]
      refine h₁.control ((congrArg Executor.phase hworker).trans hphase) _ _ rfl (fun _ => rfl)
        (by simp) ?_
      cases deletesDraft <;> exact trivial
    cases terminal with
    | none => exact hnext h rfl
    | some event =>
      have hrow : ∃ row ∈ w.db.events, row.toRunEvent = event := h.phase.of_phase hphase
      exact hnext (h.withAppend event now ok (.inr hrow)) rfl
  | flushDraft ok now =>
    simp only [World.workerStep] at hstep
    split at hstep <;> cases hstep
    rename_i hphase
    refine h.step_flush hphase ok now _ _ _ (fun _ => rfl) (by simp) ?_
    split <;> exact trivial
  | deleteDraft ok =>
    simp only [World.workerStep] at hstep
    split at hstep <;> cases hstep
    rename_i hphase
    have hdeleted : WorldInv cfg { w with db := if ok then deleteRunDraft w.db else w.db } := by
      split
      · have hexec : Tx.deleteRunDraft.exec w.db = .ok (deleteRunDraft w.db) := rfl
        exact h.withOther hexec rfl
      · exact h
    exact hdeleted.control hphase _ _ rfl (fun _ => rfl) (by simp) trivial
  | _ => cases hstep

theorem otherStep (h : WorldInv cfg w) (hstep : w.otherStep cfg a = some w') :
    WorldInv cfg w' := by
  cases a with
  | cancelOwnedRun now =>
    cases hstep
    have htx : WorldInv cfg { w with db := commit w.db (.cancelOwnedRun now) } :=
      h.withCommit _ rfl
    exact { htx with phase := htx.phase }
  | beginRecovery | probeStream | abandonRecovery =>
    simp only [World.otherStep] at hstep
    split at hstep <;> cases hstep
    exact { h with }
  | recover =>
    simp only [World.otherStep] at hstep
    split at hstep <;> cases hstep
    rename_i now draft probe _
    have htx := h.withCommit (.recoverExpiredRuns draft probe cfg.uncertainStreamSeqGap now) rfl
    exact { htx with phase := htx.phase }
  | broadcastTerminal now =>
    simp only [World.otherStep] at hstep
    split at hstep <;> cases hstep
    rename_i event hevent
    obtain ⟨row, hfind, rfl⟩ := Option.map_eq_some_iff.mp hevent
    have hrow : row ∈ w.db.events :=
      (mem_listRunEventsAfter.mp (List.mem_reverse.mp (List.mem_of_find?_eq_some hfind))).1
    exact h.withAppend row.toRunEvent now true (.inr ⟨row, hrow, rfl⟩)
  | trimStream =>
    cases hstep
    exact h.withStream h.streamOrdered.trim fun e he => h.streamKnown e (List.mem_of_mem_drop he)
  | expireStream =>
    cases hstep
    exact h.withStream EventStream.ordered_empty fun e he => by cases he
  | _ => cases hstep

/-- **Step lemma.** Every step of every actor preserves the invariant. -/
theorem step (h : WorldInv cfg w) (hstep : w.step cfg a = some w') : WorldInv cfg w' := by
  replace hstep := World.move_of_step hstep
  unfold World.move at hstep
  cases hworker : w.workerStep cfg a with
  | some =>
    rw [hworker] at hstep
    cases hstep
    exact h.workerStep hworker
  | none =>
    rw [hworker] at hstep
    exact h.otherStep hstep

end WorldInv

/-- **Run lemma.** The invariant holds in every state of every interleaving. -/
theorem worldInv_of_run {as : List Action}
    (hrun : StepSystem.run (World.step cfg) World.init as = some w) : WorldInv cfg w :=
  StepSystem.run_invariant (fun _ _ _ h hstep => h.step hstep) worldInv_init hrun

end IChat
