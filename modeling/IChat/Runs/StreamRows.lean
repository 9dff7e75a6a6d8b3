import IChat.Runs.StreamEnds
import IChat.Runs.TerminalLast

/-!
# Does a stream contain every row?

The log and the Redis stream are independent copies of the semantic events of a run, and the one
cursor of a reader filters both. An event that one source lost is skipped for good when a later
one reaches the reader through the other source.

`deliversRows_of_along`: a completed stream contains every row above `afterSeq` exactly once and in
order, in every run in which

* no answer that is delivered lies above a row it does not contain (`SkipsRow`);
* no check finds a terminal event that was not listed (`EndsUnlisted`);
* no row is appended after the terminal event (`AppendsLate`).
-/

namespace IChat

variable {cfg : Settings} {afterSeq : ℕ} {s s' : Subscription} {w' : World} {r' : Reader}
  {as : List SubscriptionAction}

/-- A yielded event that is a row of the log, or a copy of one. -/
def isRow (db : Db) (e : RunEventResponse) : Bool :=
  db.events.any fun row => row.toRunEvent = e.toRunEvent

/-- A stream that is over contains the rows above `afterSeq`, each once and in order. -/
def DeliversRows (afterSeq : ℕ) (s : Subscription) : Prop :=
  s.reader.pc = .finished →
    (s.reader.yielded.filter (isRow s.world.db)).map RunEventResponse.toRunEvent =
      (listRunEventsAfter s.world.db afterSeq).map RunEventResponse.toRunEvent

instance (afterSeq : ℕ) (s : Subscription) : Decidable (DeliversRows afterSeq s) :=
  inferInstanceAs (Decidable (_ → _ = _))

/-- The answers `answer` leave out a row that lies above the cursor and at or below the number
`top`. -/
def LeavesOut (s : Subscription) (answer : List RunEventResponse) (top : ℕ) : Prop :=
  ∃ row ∈ s.world.db.events, s.reader.cursor < row.seq ∧ row.seq ≤ top ∧
    ∀ e ∈ answer, e.toRunEvent ≠ row.toRunEvent

/-- The reader is about to deliver answers that leave out a row below something they contain, or
below the number of the draft. -/
def SkipsRow (s : Subscription) (redisOk : Bool) : Prop :=
  match s.reader.pc with
  | .tail => redisOk = true ∧ ∃ e ∈ s.world.stream.readAfter s.reader.cursor,
      LeavesOut s (s.world.stream.readAfter s.reader.cursor) e.seq
  | .readDraft persisted streamed =>
    (∃ e ∈ persisted ++ streamed, LeavesOut s (persisted ++ streamed) e.seq) ∨
      ∃ d ∈ s.world.db.draft, LeavesOut s (persisted ++ streamed) d.seq
  | _ => False

/-- The step loses a row, or adds one that comes too late. -/
def LosesRow (afterSeq : ℕ) (s : Subscription) : SubscriptionAction → Prop
  | .env action => AppendsLate s.world action
  | .read redisOk => EndsUnlisted afterSeq s (.read redisOk) ∨ SkipsRow s redisOk

instance (s : Subscription) (answer : List RunEventResponse) (top : ℕ) :
    Decidable (LeavesOut s answer top) :=
  inferInstanceAs (Decidable (∃ row ∈ s.world.db.events, _))

instance (s : Subscription) (redisOk : Bool) : Decidable (SkipsRow s redisOk) := by
  dsimp only [SkipsRow]
  generalize s.reader.pc = pc
  induction pc using ReaderPc.casesOn <;> infer_instance

instance (afterSeq : ℕ) (s : Subscription) (a : SubscriptionAction) :
    Decidable (LosesRow afterSeq s a) := by
  induction a using SubscriptionAction.casesOn <;> dsimp only [LosesRow] <;> infer_instance

/-- The invariant of a run that loses no row: every row at or below the cursor has been yielded,
except for a terminal event, which is the last row. -/
structure RowsInv (cfg : Settings) (afterSeq : ℕ) (s : Subscription) : Prop where
  base : SubscriptionInv cfg afterSeq s
  last : TerminalLast s.world.db.events
  delivered : ∀ row ∈ s.world.db.events, row.type.isTerminal = false → afterSeq < row.seq →
    row.seq ≤ s.reader.cursor → ∃ e ∈ s.reader.yielded, e.toRunEvent = row.toRunEvent
  ends : EndsWithTerminal afterSeq s

/-! ### New rows -/

/-- The last event the worker has emitted is yielded once the cursor is at its number, unless it
carries text. -/
theorem SubscriptionInv.yielded_of_cursor_eq (h : SubscriptionInv cfg afterSeq s) {e : RunEvent}
    (he : e ∈ s.world.worker.emitted) (hdelta : e.type.isDelta = false)
    (hfresh : ∀ row ∈ s.world.db.events, row.seq ≠ e.seq) (hafter : afterSeq < e.seq)
    (hcursor : s.reader.cursor = e.seq) : ∃ y ∈ s.reader.yielded, y.toRunEvent = e := by
  have hunique : ∀ e' ∈ s.world.worker.emitted, e'.seq = e.seq → e' = e := fun e' he' hseq =>
    h.world.emitted_ascending.eq_of_key_eq he' he hseq
  -- an event with text has another number
  have htext : ∀ e' ∈ s.world.worker.emitted, e'.carriesText = true → e'.seq ≠ e.seq := by
    intro e' he' htext hseq
    have hdelta' := RunEvent.isDelta_of_carriesText htext
    rw [hunique e' he' hseq, hdelta] at hdelta'
    cases hdelta'
  rcases h.cursor with hstart | ⟨y, hy, hseq⟩ | ⟨e', he', hcarries, hseq⟩
  · omega
  · refine ⟨y, hy, ?_⟩
    have hyseq : y.seq = e.seq := hseq.trans hcursor
    rcases h.yieldedBacked y hy with (hemitted | ⟨row, hrow, heq⟩) | ⟨-, e', he', hcarries, hseq'⟩
    · exact hunique _ hemitted hyseq
    · have hrowSeq : row.seq = y.seq := congrArg RunEvent.seq heq
      exact absurd (hrowSeq.trans hyseq) (hfresh row hrow)
    · exact absurd (hseq'.trans hyseq) (htext e' he' hcarries)
  · exact absurd (hseq.trans hcursor) (htext e' he' hcarries)

/-- A new row lies above the cursor, or it has been yielded from the stream already. -/
theorem SubscriptionInv.new_row {a : Action} {row : RunEventResponse}
    (h : SubscriptionInv cfg afterSeq s) (hlate : ¬AppendsLate s.world a)
    (happend : RowAppended s.world.db w'.db row) (hkind : RowKind cfg s.world a row)
    (htype : row.type.isTerminal = false) (hafter : afterSeq < row.seq)
    (hle : row.seq ≤ s.reader.cursor) : ∃ y ∈ s.reader.yielded, y.toRunEvent = row.toRunEvent := by
  cases hkind with
  | started hstarted hqueued hidle =>
    -- nothing has been emitted, so the cursor is below the number of the row
    exfalso
    have hnil := h.world.emitted_eq_nil (by rw [hidle]; rfl)
    rcases h.cursor_known with hstart | ⟨e, hemitted | ⟨row', hrow', rfl⟩, hcursor⟩
    · omega
    · rw [hnil] at hemitted
      cases hemitted
    · have hlt := lt_getNextRunEventSeq hrow'
      omega
  | semantic e now haction hpending heq hdelta hguard =>
    have hseq : row.seq = e.seq := congrArg RunEvent.seq heq
    have hetype : row.type = e.type := congrArg RunEvent.type heq
    have hlast := h.world.pendingPostgres e hpending
    have hmem : e.toRunEvent ∈ s.world.worker.emitted := List.mem_of_getLast? hlast
    have hlatest := h.world.seq_of_getLast? hlast
    have hprepared : s.world.worker.phase.isPrepared = true := by
      by_contra hidle
      rw [h.world.emitted_eq_nil (by simpa using hidle)] at hmem
      cases hmem
    have hterminal : runHasTerminalEvent s.world.db = false := by
      by_contra hended
      have hended : runHasTerminalEvent s.world.db = true := by simpa using hended
      rcases hguard with hstreaming | hstarted
      · refine hlate (haction ▸ ⟨hended, hstreaming, e, hpending, hetype ▸ hdelta,
          hseq ▸ happend.positive, fun hmem => ?_⟩)
        obtain ⟨row', hrow', hseq'⟩ := List.mem_map.mp hmem
        exact happend.fresh row' hrow' (hseq'.trans hseq.symm)
      · rw [h.world.runHasTerminalEvent_eq, hstarted] at hended
        cases hended
    have hcursor : s.reader.cursor = e.seq := by
      have hbound := h.cursor_le_latestSeq hprepared (h.not_terminal_of_active hterminal)
      have hlatest' : e.seq = s.world.worker.latestSeq := hlatest
      omega
    obtain ⟨y, hy, hyeq⟩ := h.yielded_of_cursor_eq hmem (hetype ▸ hdelta)
      (fun row' hrow' hseq' => happend.fresh row' hrow' (hseq'.trans hseq.symm))
      (show afterSeq < e.seq by omega) hcursor
    exact ⟨y, hy, hyeq.trans heq.symm⟩
  | ended hterminal =>
    rw [hterminal] at htype
    cases htype

/-- The steps of the others lose no row. -/
theorem RowsInv.env {a : Action} (h : RowsInv cfg afterSeq s) (hlate : ¬AppendsLate s.world a)
    (hstep : s.world.step cfg a = some w') : RowsInv cfg afterSeq { s with world := w' } where
  base := h.base.env hstep
  last := terminalLast_step h.base.world h.last hstep hlate
  delivered row hrow htype hafter hle := by
    rcases World.step_rows h.base.world hstep with hsame | ⟨new, happend, hkind⟩
    · exact h.delivered row (hsame ▸ hrow) htype hafter hle
    · rw [happend.events] at hrow
      rcases List.mem_append.mp hrow with hold | hnew
      · exact h.delivered row hold htype hafter hle
      · obtain rfl := List.mem_singleton.mp hnew
        exact h.base.new_row hlate happend hkind htype hafter hle
  ends := by
    have hstep' : s.step cfg (.env a) = some { s with world := w' } := by
      simp [Subscription.step, hstep]
    exact endsWithTerminal_step h.base h.ends id hstep'

/-! ### Deliveries -/

/-- A batch that contains a row which is not the terminal event yields it, if the cursor passes
it. -/
theorem Reader.Delivers.mem_of_le {r : Reader} {next : ReaderPc} {batch : List RunEventResponse}
    {top : ℕ} (hd : r.Delivers r' next batch top) (horder : batch.Pairwise YieldOrder)
    {e : RunEventResponse} (he : e ∈ batch) (hdelta : e.type.isDelta = false)
    (hle : e.seq ≤ r'.cursor) : e ∈ r'.yielded := by
  rw [hd.yielded]
  refine List.mem_append_right _ ?_
  rcases SeqLog.mem_takeThrough_or (p := fun e => e.type.isTerminal) horder he with
    hmem | ⟨t, ht, htype, hafter⟩
  · exact hmem
  · have hcursor := hd.cursor_of_terminal t ht htype
    rcases hafter with hlt | ⟨-, hdelta'⟩
    · omega
    · rw [hdelta] at hdelta'
      cases hdelta'

/-- Delivering a batch that contains every row the cursor passes loses none. -/
theorem RowsInv.delivers {next : ReaderPc} {batch : List RunEventResponse} {top : ℕ}
    (h : RowsInv cfg afterSeq s) (hbatch : Batch s.world s.reader.cursor batch)
    (hd : s.reader.Delivers r' next batch top)
    (hinv : SubscriptionInv cfg afterSeq { s with reader := r' })
    (hends : EndsWithTerminal afterSeq { s with reader := r' })
    (hall : ∀ row ∈ s.world.db.events, row.type.isTerminal = false → s.reader.cursor < row.seq →
      row.seq ≤ r'.cursor → ∃ e ∈ batch, e.toRunEvent = row.toRunEvent) :
    RowsInv cfg afterSeq { s with reader := r' } where
  base := hinv
  last := h.last
  delivered row hrow htype hafter hle := by
    rcases Nat.lt_or_ge s.reader.cursor row.seq with hlt | hge
    · obtain ⟨e, he, heq⟩ := hall row hrow htype hlt hle
      have hseq : e.seq = row.seq := congrArg RunEvent.seq heq
      have hetype : e.type = row.type := congrArg RunEvent.type heq
      have hdelta : e.type.isDelta = false :=
        hetype ▸ h.base.world.isDelta_eq_false_of_row hrow
      exact ⟨e, hd.mem_of_le hbatch.order he hdelta (hseq ▸ hle), heq⟩
    · obtain ⟨e, he, heq⟩ := h.delivered row hrow htype hafter hge
      exact ⟨e, hd.yielded ▸ List.mem_append_left _ he, heq⟩
  ends := hends

/-- The calls of the reader lose no row. -/
theorem RowsInv.read {redisOk : Bool} (h : RowsInv cfg afterSeq s)
    (hcheck : ¬EndsUnlisted afterSeq s (.read redisOk)) (hskip : ¬SkipsRow s redisOk)
    (hstep : s.reader.step redisOk s.world.db s.world.stream = some r') :
    RowsInv cfg afterSeq { s with reader := r' } := by
  have hstep' : s.step cfg (.read redisOk) = some { s with reader := r' } := by
    simp [Subscription.step, hstep]
  have hinv := h.base.step hstep'
  have hends := endsWithTerminal_step h.base h.ends hcheck hstep'
  rcases Subscription.read_cases h.base hstep with ⟨pc, rfl, -, -, -, -⟩ | ⟨persisted, -, rfl⟩ |
    ⟨hpc, rfl, hanswer, hd⟩ | ⟨persisted, streamed, checkpointEvents, hpc, hrows, hentries,
      hcheckpoint, hd⟩
  · exact ⟨hinv, h.last, h.delivered, hends⟩
  · exact ⟨hinv, h.last, h.delivered, hends⟩
  · refine h.delivers hanswer.batch hd hinv hends fun row hrow _ hlt hle => ?_
    simp only [SkipsRow, hpc, true_and] at hskip
    by_contra hmissing
    rcases hd.le_batch_or_top hlt hle with ⟨e, he, hle'⟩ | htop
    · exact hskip ⟨e, he, row, hrow, hlt, hle', fun e' he' heq => hmissing ⟨e', he', heq⟩⟩
    · omega
  · have hbatch := batch_mergeEvents h.base.world hrows hentries hcheckpoint
    refine h.delivers hbatch hd hinv hends fun row hrow _ hlt hle => ?_
    simp only [SkipsRow, hpc, not_or] at hskip
    -- the row is in one of the two answers
    obtain ⟨e, he, heq⟩ : ∃ e ∈ persisted ++ streamed, e.toRunEvent = row.toRunEvent := by
      by_contra hmissing
      have hleaves : ∀ n, row.seq ≤ n → LeavesOut s (persisted ++ streamed) n := fun n hn =>
        ⟨row, hrow, hlt, hn, fun e he heq => hmissing ⟨e, he, heq⟩⟩
      rcases hd.le_answers h.base.world hrows hentries hcheckpoint hlt hle with
        ⟨e, he, hle'⟩ | ⟨d, hdraft, hle'⟩
      · exact hskip.1 ⟨e, he, hleaves e.seq hle'⟩
      · exact hskip.2 ⟨d, hdraft, hleaves d.seq hle'⟩
    by_cases hlisted : row ∈ persisted
    · exact ⟨row, mem_mergeEvents_of_row hrows hentries hlisted, rfl⟩
    · have hseq : e.seq = row.seq := congrArg RunEvent.seq heq
      have hfree : ∀ row' ∈ persisted, row'.seq ≠ e.seq := by
        intro row' hrow' hseq'
        have hsame : row' = row := List.inj_on_of_nodup_map h.base.world.rowsNodup
          (hrows.mem row' hrow') hrow (hseq'.trans hseq)
        exact hlisted (hsame ▸ hrow')
      have hstreamed : e ∈ streamed :=
        (List.mem_append.mp he).resolve_left fun hmem => hfree e hmem rfl
      exact ⟨e, (Reader.mem_mergeEvents hentries.nodup hrows.nodup).mpr
        (.inr ⟨hfree, .inl hstreamed⟩), heq⟩

/-! ### Whole runs -/

/-- **Step lemma.** -/
theorem RowsInv.step {a : SubscriptionAction} (h : RowsInv cfg afterSeq s)
    (hloses : ¬LosesRow afterSeq s a) (hstep : s.step cfg a = some s') :
    RowsInv cfg afterSeq s' := by
  cases a with
  | env =>
    obtain ⟨w', hw, rfl⟩ := Option.map_eq_some_iff.mp hstep
    exact h.env hloses hw
  | read =>
    obtain ⟨r', hr, rfl⟩ := Option.map_eq_some_iff.mp hstep
    exact h.read (fun hends => hloses (.inl hends)) (fun hskips => hloses (.inr hskips)) hr

/-- The invariant, read when the stream is over: what it yielded of the log is the log. -/
theorem RowsInv.deliversRows (h : RowsInv cfg afterSeq s) : DeliversRows afterSeq s := by
  intro hpc
  obtain ⟨t, ht, htype, hyielded⟩ := h.ends hpc
  have hall : ∀ row ∈ s.world.db.events, afterSeq < row.seq →
      ∃ e ∈ s.reader.yielded, e.toRunEvent = row.toRunEvent := by
    intro row hrow hafter
    have hlast := h.last t ht htype row hrow
    obtain ⟨e, he, heq⟩ := hyielded (by omega)
    have hetype : e.type = t.type := congrArg RunEvent.type heq
    have heseq : e.seq = t.seq := congrArg RunEvent.seq heq
    have hcursor := (h.base.terminal e he (hetype ▸ htype)).2
    cases hrowType : row.type.isTerminal with
    | true =>
      obtain rfl := h.base.world.terminal_unique ht hrow htype hrowType
      exact ⟨e, he, heq⟩
    | false => exact h.delivered row hrow hrowType hafter (by omega)
  have hyieldedAscending : SeqLog.Ascending RunEvent.seq
      ((s.reader.yielded.filter (isRow s.world.db)).map RunEventResponse.toRunEvent) := by
    refine List.pairwise_map.mpr (List.Pairwise.imp_of_mem ?_ (h.base.yieldedOrder.filter _))
    intro a b _ hb hab
    rcases hab with hlt | ⟨-, hdelta⟩
    · exact hlt
    · -- a delta is no row
      obtain ⟨row, hrow, heq⟩ := List.any_eq_true.mp (List.mem_filter.mp hb).2
      have htype : row.type = b.type := congrArg RunEvent.type (of_decide_eq_true heq)
      rw [← htype, h.base.world.isDelta_eq_false_of_row hrow] at hdelta
      cases hdelta
  have hrowsAscending : SeqLog.Ascending RunEvent.seq
      ((listRunEventsAfter s.world.db afterSeq).map RunEventResponse.toRunEvent) :=
    List.pairwise_map.mpr (ascending_listRunEventsAfter h.base.world.rowsNodup)
  refine hyieldedAscending.ext hrowsAscending fun e => ?_
  simp only [List.mem_map, List.mem_filter, mem_listRunEventsAfter, isRow, List.any_eq_true,
    decide_eq_true_eq]
  constructor
  · rintro ⟨y, ⟨hy, row, hrow, heq⟩, rfl⟩
    have hseq : row.seq = y.seq := congrArg RunEvent.seq heq
    exact ⟨row, ⟨hrow, hseq ▸ (h.base.yieldedSeq y hy).1⟩, heq⟩
  · rintro ⟨row, ⟨hrow, hafter⟩, rfl⟩
    obtain ⟨y, hy, heq⟩ := hall row hrow hafter
    exact ⟨y, ⟨hy, row, hrow, heq.symm⟩, heq⟩

/-- **No row is skipped**, in every interleaving whose steps lose none: a completed stream contains
every row above `afterSeq` exactly once and in order. -/
theorem deliversRows_of_along
    (hrun : StepSystem.run (Subscription.step cfg) (.open World.init afterSeq) as = some s)
    (halong : StepSystem.Along (Subscription.step cfg) (fun s a => ¬LosesRow afterSeq s a)
      (.open World.init afterSeq) as) :
    DeliversRows afterSeq s := by
  have hinit : RowsInv cfg afterSeq (.open World.init afterSeq) :=
    { base := subscriptionInv_open worldInv_init afterSeq
      last := terminalLast_init
      delivered := fun row hrow => by cases hrow
      ends := fun hpc => ReaderPc.noConfusion hpc }
  exact (StepSystem.run_invariant_along (fun _ _ _ h hloses hstep => h.step hloses hstep) hinit
    halong hrun).deliversRows

/-- A worker claims a run and the stream of a client reaches its tail. -/
def openTail : List SubscriptionAction :=
  [.env (.claim "worker-1" 30 0), .env (.prepare none), .env (.listPersisted true),
    .env (.publishPersisted true), .env .startStreaming,
    .read true, .read true, .read true, .read true]

/-- The worker emits two tool events, whose appends to the stream succeed or not. -/
def emitToolCall (startedOk finishedOk : Bool) : List SubscriptionAction :=
  [.env (.emit (.toolCallStarted "web_search" [] 1)), .env (.redisSink startedOk 1),
    .env (.postgresSink true 1), .env (.draftSink true 1),
    .env (.emit (.toolCallFinished "web_search" false [] none)), .env (.redisSink finishedOk 2),
    .env (.postgresSink true 2), .env (.draftSink true 2), .read true]

/-- The run succeeds and the client reads to the end. -/
def finishAndRead : List SubscriptionAction :=
  [.env (.endStream .succeeded [⟨.assistant, []⟩] none none none), .env (.flushSinks true 3),
    .env (.finalize true none [] 3), .env (.publishTerminal true 3), .read true]

/-- The append of the first tool event to the stream is lost, that of the second one is not. -/
def lostToolStart : List SubscriptionAction :=
  openTail ++ emitToolCall false true ++ finishAndRead

/-- The stream of `lostToolStart` is over and lacks the row of the first tool event. -/
theorem lostToolStart_skips_row :
    ∃ s, StepSystem.run (Subscription.step Settings.default) (.open World.init 0)
        lostToolStart = some s ∧
      s.reader.pc = .finished ∧
      s.world.db.events.map (fun e => (e.seq, e.type)) = [(1, .runStarted), (2, .toolCallStarted),
        (3, .toolCallSucceeded), (4, .runSucceeded)] ∧
      s.reader.yielded.map (fun e => (e.seq, e.type)) =
        [(1, .runStarted), (3, .toolCallSucceeded), (4, .runSucceeded)] ∧
      ¬DeliversRows 0 s :=
  StepSystem.exists_run (by decide +kernel)

/-- The same run when the appends of both tool events succeed. -/
def deliveredToolCall : List SubscriptionAction :=
  openTail ++ emitToolCall true true ++ finishAndRead

theorem deliveredToolCall_deliversRows :
    ∃ s, StepSystem.run (Subscription.step Settings.default) (.open World.init 0)
        deliveredToolCall = some s ∧
      s.reader.pc = .finished ∧ DeliversRows 0 s := by
  obtain ⟨s, hrun, hpc⟩ : ∃ s, StepSystem.run (Subscription.step Settings.default)
      (.open World.init 0) deliveredToolCall = some s ∧ s.reader.pc = .finished :=
    StepSystem.exists_run (by decide +kernel)
  exact ⟨s, hrun, hpc, deliversRows_of_along hrun (by decide +kernel)⟩

end IChat
