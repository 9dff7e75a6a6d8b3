import IChat.Runs.RunState
import IChat.Runs.StreamRows
import IChat.Runs.StreamTexts

/-!
# Do the state and the resumed stream make up the run?

A client that enters a conversation asks for the state of the run and then follows the stream from
`latest_seq` on. `Resumption` puts such a client next to the run and its actors: its calls are
those of `get_owned_run_state`, one for each answer, and then those of the reader.

`ResumesWhole` says that nothing falls between the two: the state accounts for every event up to
`latest_seq`, and with what a completed stream adds to it the client has the texts, the sources, the
tool events and the terminal event of the run.

The three answers of the state are read one after the other, and a later one may contain an event
above one that the earlier ones lack and it does not carry: an event of the stream above a tool
event whose row is not committed yet, for example. `latest_seq` then lies above that event
(`Overshoots`). `resumesWhole_of_along`: nothing else goes wrong, except what goes wrong with any
stream.
-/

namespace IChat

/-- Where a client of the state and of the stream stands. -/
inductive Client where
  /-- Before the run is loaded. -/
  | loadRun
  /-- Before the rows are listed. -/
  | listRows (status : RunStatus)
  /-- Before the draft is read. -/
  | readDraft (status : RunStatus) (rows : List RunEventResponse)
  /-- Before the stream is read. -/
  | readStream (status : RunStatus) (rows : List RunEventResponse) (draft : Option RunDraft)
  /-- `get_owned_run_state` has raised. -/
  | raised
  /-- The client has the state and follows the stream from its `latest_seq` on. -/
  | following (state : RunState) (reader : Reader)
  deriving DecidableEq

/-- The state and the reader of a client that follows the stream. -/
def Client.followed? : Client → Option (RunState × Reader)
  | .following state reader => some (state, reader)
  | _ => none

/-- One run with its actors, and one client. -/
structure Resumption where
  world : World
  client : Client
  deriving DecidableEq

/-- A client enters the conversation of a run. -/
def Resumption.open (w : World) : Resumption := ⟨w, .loadRun⟩

/-- What the stream answers to the state's question. -/
def stateAnswer (w : World) (redisOk : Bool) (rows : List RunEventResponse)
    (draft : Option RunDraft) : List RunEventResponse :=
  if redisOk then w.stream.listAfter (streamAfterSeq rows draft) else []

/-- One call of the client. -/
def Client.step (redisOk : Bool) (w : World) : Client → Option Client
  | .loadRun => some (.listRows w.db.run.status)
  | .listRows status => some (.readDraft status (listRunEvents w.db))
  | .readDraft status rows => some (.readStream status rows (getRunDraft w.db))
  | .readStream status rows draft =>
    match getOwnedRunState status rows draft (stateAnswer w redisOk rows draft) with
    | some state => some (.following state (.start state.latestSeq))
    | none => some .raised
  | .raised => none
  | .following state reader =>
    (reader.step redisOk w.db w.stream).map fun reader => .following state reader

/-- One step. -/
def Resumption.step (cfg : Settings) (s : Resumption) : SubscriptionAction → Option Resumption
  | .env action => (s.world.step cfg action).map fun w => { s with world := w }
  | .read redisOk => (s.client.step redisOk s.world).map fun client => { s with client := client }

variable {cfg : Settings} {s s' : Resumption} {w w' : World} {client : Client} {state : RunState}
  {reader : Reader} {rows : List RunEventResponse} {draft : Option RunDraft} {status : RunStatus}
  {redisOk : Bool} {as : List SubscriptionAction}

/-- The state accounts for what happened up to its `latest_seq`. -/
structure Accounts (w : World) (state : RunState) : Prop where
  texts : ∀ c, state.channel c =
    channelText c (w.worker.emitted.filter fun e => e.seq ≤ state.latestSeq)
  sources : ∀ row ∈ w.db.events, row.seq ≤ state.latestSeq → row.type = .toolCallSucceeded →
    ∀ source ∈ (toolSources row.payload).getD [], ∃ x ∈ state.sources, x.id = source.id
  terminal : ∀ t ∈ w.db.events, t.seq ≤ state.latestSeq → t.type.isTerminal = true →
    state.terminalEvent = some t

/-- What a client has that has read the stream to its end. -/
structure Complete (w : World) (state : RunState) (yielded : List RunEventResponse) : Prop where
  texts : ∀ c, state.channel c ++ channelText c (yielded.map RunEventResponse.toRunEvent) =
    channelText c w.worker.emitted
  sources : ∀ row ∈ w.db.events, row.type = .toolCallSucceeded →
    (∃ y ∈ yielded, y.toRunEvent = row.toRunEvent) ∨
      ∀ source ∈ (toolSources row.payload).getD [], ∃ x ∈ state.sources, x.id = source.id
  tools : ∀ row ∈ w.db.events, row.type.isTool = true → state.latestSeq < row.seq →
    ∃ y ∈ yielded, y.toRunEvent = row.toRunEvent
  terminal : ∃ t ∈ w.db.events, t.type.isTerminal = true ∧
    (state.terminalEvent = some t ∨ ∃ y ∈ yielded, y.toRunEvent = t.toRunEvent)

/-- Nothing falls between the state and the stream. -/
def ResumesWhole (s : Resumption) : Prop :=
  ∀ p ∈ s.client.followed?,
    Accounts s.world p.1 ∧ (p.2.pc = .finished → Complete s.world p.1 p.2.yielded)

/-! ### What can go wrong -/

/-- The answers leave out an event at or below `n`: an emitted delta above the draft that the stream
did not return, a tool event that was emitted and is not among the rows, or a terminal event that
is not among them. -/
def LeavesUnaccounted (w : World) (rows : List RunEventResponse) (draft : Option RunDraft)
    (answer : List RunEventResponse) (n : ℕ) : Prop :=
  (∃ e ∈ w.worker.emitted, e.carriesText = true ∧ e.seq ≤ n ∧ (∀ d ∈ draft, d.seq < e.seq) ∧
    ∀ y ∈ answer, y.toRunEvent ≠ e) ∨
  (∃ e ∈ w.worker.emitted, e.type.isTool = true ∧ e.seq ≤ n ∧
    ∀ row ∈ rows, row.toRunEvent ≠ e) ∨
  ∃ t ∈ w.db.events, t.type.isTerminal = true ∧ t.seq ≤ n ∧ t ∉ rows

/-- The answers leave out an event that lies below something they contain. -/
def Overshoots (w : World) (rows : List RunEventResponse) (draft : Option RunDraft)
    (answer : List RunEventResponse) : Prop :=
  (∃ y ∈ rows ++ answer, LeavesUnaccounted w rows draft answer y.seq) ∨
    ∃ d ∈ draft, LeavesUnaccounted w rows draft answer d.seq

/-- Recovery is about to end the run with a number that is not above every event the worker has
emitted. -/
def RecoversBelowEmitted (cfg : Settings) (w : World) : Action → Prop
  | .recover => ∃ seq ∈ w.recoverySeq cfg, ∃ e ∈ w.worker.emitted, seq ≤ e.seq
  | _ => False

/-- The step makes the client lose something. -/
def LosesResumed (cfg : Settings) (s : Resumption) : SubscriptionAction → Prop
  | .env action => AppendsLate s.world action ∨ EmitsLate cfg s.world action ∨
      RecoversBelowEmitted cfg s.world action
  | .read redisOk =>
    match s.client with
    | .readStream _ rows draft =>
      Overshoots s.world rows draft (stateAnswer s.world redisOk rows draft)
    | .following state reader =>
      LosesRow state.latestSeq ⟨s.world, reader⟩ (.read redisOk) ∨
        LosesText cfg ⟨s.world, reader⟩ (.read redisOk)
    | _ => False

section Decidable

instance (w : World) (rows : List RunEventResponse) (draft : Option RunDraft)
    (answer : List RunEventResponse) (n : ℕ) :
    Decidable (LeavesUnaccounted w rows draft answer n) :=
  inferInstanceAs (Decidable ((∃ e ∈ w.worker.emitted, _) ∨ (∃ e ∈ w.worker.emitted, _) ∨
    ∃ t ∈ w.db.events, _))

instance (w : World) (rows : List RunEventResponse) (draft : Option RunDraft)
    (answer : List RunEventResponse) : Decidable (Overshoots w rows draft answer) :=
  inferInstanceAs (Decidable ((∃ y ∈ rows ++ answer, _) ∨ ∃ d ∈ draft, _))

instance (cfg : Settings) (w : World) (a : Action) : Decidable (RecoversBelowEmitted cfg w a) := by
  induction a using Action.casesOn <;> dsimp only [RecoversBelowEmitted] <;> infer_instance

instance (cfg : Settings) (s : Resumption) (a : SubscriptionAction) :
    Decidable (LosesResumed cfg s a) := by
  induction a using SubscriptionAction.casesOn with
  | env => exact inferInstanceAs (Decidable (_ ∨ _ ∨ _))
  | read =>
    dsimp only [LosesResumed]
    generalize s.client = client
    induction client using Client.casesOn <;> infer_instance

end Decidable

/-! ### The run -/

/-- What holds of the run while no step of its actors is to blame. -/
structure WorldKept (cfg : Settings) (w : World) : Prop where
  base : WorldInv cfg w
  last : TerminalLast w.db.events
  below : TextsBelow w
  positive : ∀ row ∈ w.db.events, 0 < row.seq

theorem worldKept_init : WorldKept cfg World.init where
  base := worldInv_init
  last := terminalLast_init
  below _ ht := by cases ht
  positive _ hrow := by cases hrow

/-- A recovery that is above every event is above every delta. -/
theorem not_recoversBelow {a : Action} (h : ¬RecoversBelowEmitted cfg w a) :
    ¬RecoversBelow cfg w a := by
  cases a with
  | recover =>
    rintro ⟨seq, hseq, e, he, -, hle⟩
    exact h ⟨seq, hseq, e, he, hle⟩
  | _ => exact id

theorem WorldKept.step {a : Action} (h : WorldKept cfg w) (hlate : ¬AppendsLate w a)
    (hemits : ¬EmitsLate cfg w a) (hrecover : ¬RecoversBelowEmitted cfg w a)
    (hstep : w.step cfg a = some w') : WorldKept cfg w' where
  base := h.base.step hstep
  last := terminalLast_step h.base h.last hstep hlate
  below := textsBelow_step h.base h.below hemits (not_recoversBelow hrecover) hstep
  positive row hrow := by
    rcases World.step_rows h.base hstep with hsame | ⟨new, happend, -⟩
    · exact h.positive row (hsame ▸ hrow)
    · rw [happend.events] at hrow
      rcases List.mem_append.mp hrow with hold | hnew
      · exact h.positive row hold
      · rw [List.mem_singleton.mp hnew]
        exact Nat.pos_of_ne_zero happend.positive

/-! ### A state that leaves nothing out -/

/-- The invariant of a state: it accounts for everything up to `latest_seq`, which is the number of
an event, and while the run is active no tool event below it is missing from the log. -/
structure Accounted (w : World) (state : RunState) : Prop extends Accounts w state where
  known : state.latestSeq = 0 ∨ ∃ e, w.Knows e ∧ e.seq = state.latestSeq
  logged : runHasTerminalEvent w.db = false → ∀ e ∈ w.worker.emitted, e.type.isTool = true →
    e.seq ≤ state.latestSeq → ∃ row ∈ w.db.events, row.toRunEvent = e

/-- The draft that the client has read was a checkpoint. -/
def WasCheckpoint (cfg : Settings) (w : World) (d : RunDraft) : Prop :=
  ∃ l, l <+: w.worker.accepted ∧ IsCheckpoint cfg.runStreamMaxlen l d

/-- A tool event of the log was emitted. -/
theorem WorldInv.emitted_of_isTool (h : WorldInv cfg w) {row : RunEventResponse}
    (hrow : row ∈ w.db.events) (htool : row.type.isTool = true) :
    row.toRunEvent ∈ w.worker.emitted := by
  rcases h.rowsOrigin row hrow with hstarted | hterminal | ⟨-, hemitted⟩
  · rw [hstarted] at htool
    cases htool
  · have hforwarded : row.type.isForwarded = true := by
      rw [RunEventType.isForwarded, htool, Bool.or_true]
    rw [RunEventType.isTerminal_eq_false_of_isForwarded hforwarded] at hterminal
    cases hterminal
  · exact hemitted

/-- The entries of the stream with text, above a number, are the emitted deltas above it, if the
stream has all of them up to a second number that bounds its entries. -/
theorem WorldInv.textEvents_listAfter (h : WorldInv cfg w) {m n : ℕ}
    (hle : ∀ y ∈ w.stream.listAfter m, y.seq ≤ n)
    (hall : ∀ e ∈ w.worker.emitted, e.carriesText = true → m < e.seq → e.seq ≤ n →
      ∃ y ∈ w.stream.listAfter m, y.toRunEvent = e) :
    textEvents ((w.stream.listAfter m).map RunEventResponse.toRunEvent) =
      (textEvents w.worker.emitted).filter fun e => m < e.seq ∧ e.seq ≤ n := by
  have hascending : SeqLog.Ascending RunEvent.seq
      ((w.stream.listAfter m).map RunEventResponse.toRunEvent) :=
    List.pairwise_map.mpr h.streamOrdered.ascending_listAfter
  refine (hascending.filter _).ext ((h.emitted_ascending.filter _).filter _) fun e => ?_
  simp only [List.mem_filter, List.mem_map, decide_eq_true_eq, textEvents]
  constructor
  · rintro ⟨⟨y, hy, rfl⟩, htext⟩
    obtain ⟨hentry, hlt⟩ := EventStream.mem_listAfter.mp hy
    exact ⟨⟨h.emitted_of_carriesText (h.streamKnown y hentry) htext, htext⟩, hlt, hle y hy⟩
  · rintro ⟨⟨hemitted, htext⟩, hlt, hle'⟩
    exact ⟨hall e hemitted htext hlt hle', htext⟩

/-- The texts of a state whose answers leave no delta out. -/
theorem WorldInv.texts_of_assembled (h : WorldInv cfg w)
    (hdraft : ∀ d ∈ draft, WasCheckpoint cfg w d) (hrows : ∀ row ∈ rows, row.type.isDelta = false)
    (hstate : state.Assembled rows draft (stateAnswer w redisOk rows draft))
    (hall : ∀ e ∈ w.worker.emitted, e.carriesText = true → e.seq ≤ state.latestSeq →
      (∀ d ∈ draft, d.seq < e.seq) → ∃ y ∈ stateAnswer w redisOk rows draft, y.toRunEvent = e)
    (c : Channel) : state.channel c =
      channelText c (w.worker.emitted.filter fun e => e.seq ≤ state.latestSeq) := by
  -- the draft has the deltas up to `m`, and the answer those above it
  obtain ⟨m, hm, hmle, habove, htexts⟩ : ∃ m, streamAfterSeq rows draft = m ∧
      m ≤ state.latestSeq ∧ (∀ n, m < n → ∀ d ∈ draft, d.seq < n) ∧
        ((draft.map fun d => d.channel c).getD "") =
          channelText c ((textEvents w.worker.emitted).filter fun e => e.seq ≤ m) := by
    rw [streamAfterSeq_eq hrows]
    cases draft with
    | none =>
      refine ⟨latestPersistedDeltaSeq rows, rfl, ?_, fun _ _ d hd => (by cases hd), ?_⟩
      all_goals rw [latestPersistedDeltaSeq_eq_zero hrows]
      · exact Nat.zero_le _
      · have hnil : (textEvents w.worker.emitted).filter (fun e => e.seq ≤ 0) = [] := by
          refine List.filter_eq_nil_iff.mpr fun e he => ?_
          have hpos := (h.seq_bounds (List.mem_filter.mp he).1).1
          simp only [decide_eq_true_eq]
          omega
        rw [hnil]
        rfl
    | some d =>
      obtain ⟨l, hl, hcheckpoint⟩ := hdraft d rfl
      refine ⟨d.seq, rfl, hstate.draft_le_latestSeq d rfl, fun n hn d' hd' => ?_, ?_⟩
      · obtain rfl : d = d' := Option.some.inj hd'
        exact hn
      · exact (hcheckpoint.texts (hl.trans h.accepted) h.emitted_ascending).1 c
  have hanswer : textEvents ((stateAnswer w redisOk rows draft).map RunEventResponse.toRunEvent) =
      (textEvents w.worker.emitted).filter fun e => m < e.seq ∧ e.seq ≤ state.latestSeq := by
    cases redisOk with
    | true =>
      simp only [stateAnswer, if_true, hm] at hall ⊢
      refine h.textEvents_listAfter (fun y hy => ?_) fun e he htext hlt hle =>
        hall e he htext hle (habove e.seq hlt)
      exact hstate.answer_le_latestSeq y (by simpa [stateAnswer, hm] using hy)
    | false =>
      refine (List.filter_eq_nil_iff.mpr fun e he => ?_).symm
      obtain ⟨hemitted, htext⟩ := List.mem_filter.mp he
      simp only [decide_eq_true_eq, not_and]
      intro hlt hle
      obtain ⟨y, hy, -⟩ := hall e hemitted htext hle (habove e.seq hlt)
      cases hy
  have hascending : SeqLog.Ascending RunEvent.seq (textEvents w.worker.emitted) :=
    h.emitted_ascending.filter _
  calc state.channel c
      = channelText c ((textEvents w.worker.emitted).filter fun e => e.seq ≤ m) ++
          channelText c (textEvents
            ((stateAnswer w redisOk rows draft).map RunEventResponse.toRunEvent)) := by
        rw [hstate.channel, htexts]
        simp only [textEvents, channelText_filter_carriesText]
    _ = channelText c ((textEvents w.worker.emitted).filter fun e => e.seq ≤ state.latestSeq) := by
        rw [hanswer, ← channelText_append, hascending.filter_le_append_filter_lt hmle]
    _ = channelText c (w.worker.emitted.filter fun e => e.seq ≤ state.latestSeq) := by
        rw [textEvents, List.filter_comm, channelText_filter_carriesText]

/-- **A state whose answers leave nothing out accounts for everything up to `latest_seq`.** -/
theorem WorldKept.accounted (h : WorldKept cfg w) (hrows : ∀ row ∈ rows, row ∈ w.db.events)
    (hdraft : ∀ d ∈ draft, WasCheckpoint cfg w d)
    (hover : ¬Overshoots w rows draft (stateAnswer w redisOk rows draft))
    (hstate : getOwnedRunState status rows draft (stateAnswer w redisOk rows draft) = some state) :
    Accounted w state := by
  have hbase := h.base
  have hdelta : ∀ row ∈ rows, row.type.isDelta = false := fun row hrow =>
    hbase.isDelta_eq_false_of_row (hrows row hrow)
  have hassembled := assembled_getOwnedRunState hdelta hstate
  -- nothing is left out at or below `latest_seq`
  have hnone : ¬LeavesUnaccounted w rows draft (stateAnswer w redisOk rows draft)
      state.latestSeq := by
    intro hleaves
    rcases hassembled.latestSeq with hzero | ⟨row, hrow, hseq⟩ | ⟨d, hd, hseq⟩ | ⟨y, hy, hseq⟩
    · rw [hzero] at hleaves
      rcases hleaves with ⟨e, he, -, hle, -⟩ | ⟨e, he, -, hle, -⟩ | ⟨t, ht, -, hle, -⟩
      · have hpos := (hbase.seq_bounds he).1
        omega
      · have hpos := (hbase.seq_bounds he).1
        omega
      · have hpos := h.positive t ht
        omega
    · exact hover (.inl ⟨row, List.mem_append_left _ hrow, hseq ▸ hleaves⟩)
    · rw [usedDraft_eq hdelta] at hd
      exact hover (.inr ⟨d, hd, hseq ▸ hleaves⟩)
    · exact hover (.inl ⟨y, List.mem_append_right _ hy, hseq ▸ hleaves⟩)
  simp only [LeavesUnaccounted, not_or] at hnone
  obtain ⟨htexts, htools, hterminal⟩ := hnone
  -- a tool event at or below `latest_seq` is among the rows
  have hlisted : ∀ e ∈ w.worker.emitted, e.type.isTool = true → e.seq ≤ state.latestSeq →
      ∃ row ∈ rows, row.toRunEvent = e := by
    intro e he htool hle
    by_contra hmissing
    exact htools ⟨e, he, htool, hle, fun row hrow heq => hmissing ⟨row, hrow, heq⟩⟩
  refine ⟨⟨hbase.texts_of_assembled hdraft hdelta hassembled fun e he htext hle habove => ?_,
    fun row hrow hle htype source hsource => ?_, fun t ht hle htype => ?_⟩, ?_,
    fun _ e he htool hle => ?_⟩
  · by_contra hmissing
    exact htexts ⟨e, he, htext, hle, habove, fun y hy heq => hmissing ⟨y, hy, heq⟩⟩
  · have htool : row.type.isTool = true := by rw [htype]; rfl
    obtain ⟨row', hrow', heq⟩ := hlisted _ (hbase.emitted_of_isTool hrow htool) htool hle
    have htype' : row'.type = row.type := congrArg RunEvent.type heq
    have hpayload : row'.payload = row.payload := congrArg RunEvent.payload heq
    exact hassembled.sources row' hrow' (htype'.trans htype) source (hpayload ▸ hsource)
  · have ht' : t ∈ rows := by
      by_contra hmissing
      exact hterminal ⟨t, ht, htype, hle, hmissing⟩
    obtain ⟨t', ht', htype', hevent⟩ := hassembled.terminal t ht' htype
    rw [hevent, hbase.terminal_unique ht (hrows t' ht') htype htype']
  · refine hassembled.latestSeq.imp_right fun hpoint => ?_
    rcases hpoint with ⟨row, hrow, hseq⟩ | ⟨d, hd, hseq⟩ | ⟨y, hy, hseq⟩
    · exact ⟨row.toRunEvent, .inr ⟨row, hrows row hrow, rfl⟩, hseq⟩
    · rw [usedDraft_eq hdelta] at hd
      obtain ⟨l, hl, hcheckpoint⟩ := hdraft d hd
      obtain ⟨-, e, he, -, hseq'⟩ :=
        hcheckpoint.texts (hl.trans hbase.accepted) hbase.emitted_ascending
      exact ⟨e, .inl ((hl.trans hbase.accepted).subset he), hseq'.trans hseq⟩
    · refine ⟨y.toRunEvent, ?_, hseq⟩
      cases redisOk with
      | true => exact hbase.streamKnown y (EventStream.mem_listAfter.mp hy).1
      | false => cases hy
  · obtain ⟨row, hrow, heq⟩ := hlisted e he htool hle
    exact ⟨row, hrows row hrow, heq⟩

/-! ### The steps of the others -/

/-- While the run is active, `latest_seq` is not above the latest number of the worker. -/
theorem Accounted.latestSeq_le (h : Accounted w state) (hw : WorldInv cfg w)
    (hprepared : w.worker.phase.isPrepared = true) (hactive : runHasTerminalEvent w.db = false) :
    state.latestSeq ≤ w.worker.latestSeq := by
  rcases h.known with hzero | ⟨e, he | ⟨row, hrow, rfl⟩, hseq⟩
  · omega
  · have hle := (hw.seq_bounds he).2
    omega
  · have hnone : ∀ t ∈ w.db.events, t.type.isTerminal = false := by
      simpa [runHasTerminalEvent] using hactive
    have hle := hw.row_seq_le hprepared hrow (hnone row hrow)
    have hseq' : row.seq = state.latestSeq := hseq
    omega

/-- A new tool event or terminal event of the log lies above `latest_seq`. -/
theorem Accounted.lt_new_row {a : Action} {row : RunEventResponse} (h : Accounted w state)
    (hw : WorldInv cfg w) (hlate : ¬AppendsLate w a) (hrecover : ¬RecoversBelowEmitted cfg w a)
    (hstep : w.step cfg a = some w') (happend : RowAppended w.db w'.db row)
    (hkind : RowKind cfg w a row) (hne : row.type ≠ .runStarted) :
    state.latestSeq < row.seq := by
  have hactive : runHasTerminalEvent w.db = false := by
    by_contra hterminal
    have hsame := events_eq_of_not_appendsLate hw hstep hlate (by simpa using hterminal)
    rw [happend.events] at hsame
    exact absurd hsame (by simp)
  cases hkind with
  | started hstarted => exact absurd hstarted hne
  | semantic e now haction hpending heq hdelta =>
    -- an emitted tool event at or below `latest_seq` is in the log already
    have hseq : row.seq = e.seq := congrArg RunEvent.seq heq
    have hemitted : e.toRunEvent ∈ w.worker.emitted :=
      List.mem_of_getLast? (hw.pendingPostgres e hpending)
    have htool : e.type.isTool = true := by
      have hforwarded := e.forwarded
      rwa [RunEventType.isForwarded, ← congrArg RunEvent.type heq, hdelta, Bool.false_or,
        show row.type = e.type from congrArg RunEvent.type heq] at hforwarded
    by_contra hle
    obtain ⟨row', hrow', heq'⟩ := h.logged hactive _ hemitted htool (by omega)
    exact happend.fresh row' hrow' ((congrArg RunEvent.seq heq').trans hseq.symm)
  | ended _ _ hseq =>
    rcases hseq with ⟨hseq, hprepared⟩ | ⟨rfl, hseq⟩ | ⟨hidle, hseq⟩
    · have hle := h.latestSeq_le hw hprepared hactive
      omega
    · rcases h.known with hzero | ⟨e, he | ⟨row', hrow', rfl⟩, hknown⟩
      · have hpos := happend.positive
        omega
      · by_contra hle
        exact hrecover ⟨_, hseq, e, he, by omega⟩
      · have hlt := World.lt_recoverySeq hseq hrow'
        have hknown' : row'.seq = state.latestSeq := hknown
        omega
    · rcases h.known with hzero | ⟨e, he | ⟨row', hrow', rfl⟩, hknown⟩
      · have hpos := happend.positive
        omega
      · rw [hw.emitted_eq_nil (by rw [hidle]; rfl)] at he
        cases he
      · have hlt := lt_getNextRunEventSeq hrow'
        have hknown' : row'.seq = state.latestSeq := hknown
        omega

/-- The steps of the others leave a state accounted. -/
theorem Accounted.env {a : Action} (h : Accounted w state) (hw : WorldInv cfg w)
    (hlate : ¬AppendsLate w a) (hemits : ¬EmitsLate cfg w a)
    (hrecover : ¬RecoversBelowEmitted cfg w a) (hstep : w.step cfg a = some w') :
    Accounted w' state := by
  -- a row that matters and is not above `latest_seq` was there before
  have hold : ∀ row ∈ w'.db.events, row.seq ≤ state.latestSeq → row.type ≠ .runStarted →
      row ∈ w.db.events := by
    intro row hrow hle hne
    rcases World.step_rows hw hstep with hsame | ⟨new, happend, hkind⟩
    · exact hsame ▸ hrow
    · rw [happend.events] at hrow
      rcases List.mem_append.mp hrow with hmem | hnew
      · exact hmem
      · obtain rfl := List.mem_singleton.mp hnew
        have hlt := h.lt_new_row hw hlate hrecover hstep happend hkind hne
        omega
  have hactive : runHasTerminalEvent w'.db = false → runHasTerminalEvent w.db = false := by
    intro hnone
    by_contra hterminal
    obtain ⟨t, ht, htype⟩ := runHasTerminalEvent_iff.mp (by simpa using hterminal)
    rw [runHasTerminalEvent_iff.mpr ⟨t, World.events_subset_of_step hw hstep ht, htype⟩] at hnone
    cases hnone
  have hknown : state.latestSeq = 0 ∨ ∃ e, w'.Knows e ∧ e.seq = state.latestSeq :=
    h.known.imp_right fun ⟨e, he, hseq⟩ => ⟨e, he.step hw hstep, hseq⟩
  have hsources : ∀ row ∈ w'.db.events, row.seq ≤ state.latestSeq →
      row.type = .toolCallSucceeded → ∀ source ∈ (toolSources row.payload).getD [],
        ∃ x ∈ state.sources, x.id = source.id := fun row hrow hle htype =>
    h.sources row (hold row hrow hle (by simp [htype])) hle htype
  have hterminal : ∀ t ∈ w'.db.events, t.seq ≤ state.latestSeq → t.type.isTerminal = true →
      state.terminalEvent = some t := fun t ht hle htype =>
    h.terminal t (hold t ht hle fun hstarted => by rw [hstarted] at htype; cases htype) hle htype
  have hlogged : ∀ e ∈ w.worker.emitted, runHasTerminalEvent w'.db = false → e.type.isTool = true →
      e.seq ≤ state.latestSeq → ∃ row ∈ w'.db.events, row.toRunEvent = e := by
    intro e he hnone htool hle
    obtain ⟨row, hrow, heq⟩ := h.logged (hactive hnone) e he htool hle
    exact ⟨row, World.events_subset_of_step hw hstep hrow, heq⟩
  rcases World.step_emitted hstep with hsame | ⟨e, event, rfl, hphase, he, -, hemitted⟩
  · refine ⟨⟨?_, hsources, hterminal⟩, hknown, ?_⟩
    · rw [hsame]
      exact h.texts
    · rw [hsame]
      exact fun hnone e he => hlogged e he hnone
  · have hseq : e.seq = w.worker.latestSeq + 1 := toRunEvent_seq he
    have hprepared : w.worker.phase.isPrepared = true := by rw [hphase]; rfl
    refine ⟨⟨fun c => ?_, hsources, hterminal⟩, hknown, fun hnone e' he' htool hle => ?_⟩
    · rw [hemitted, List.filter_append, channelText_append, h.texts c]
      have hnew : channelText c ([e.toRunEvent].filter fun e => e.seq ≤ state.latestSeq) = "" := by
        cases htext : e.carriesText with
        | false =>
          rw [← channelText_filter_carriesText, List.filter_comm]
          simp [htext]
        | true =>
          have hle := h.latestSeq_le hw hprepared (active_of_not_emitsLate hemits he htext)
          have hlt : ¬e.seq ≤ state.latestSeq := by omega
          simp [hlt]
      rw [hnew, String.append_empty]
    · rw [hemitted] at he'
      rcases List.mem_append.mp he' with hmem | hnew
      · exact hlogged e' hmem hnone htool hle
      · rw [List.mem_singleton.mp hnew] at hle
        have hbound := h.latestSeq_le hw hprepared (hactive hnone)
        have hle' : e.seq ≤ state.latestSeq := hle
        omega

/-! ### The client -/

/-- What the client holds was read from the run, and what it has received is complete up to the
cursor of its reader. -/
def ClientInv (cfg : Settings) (w : World) : Client → Prop
  | .readDraft _ rows => ∀ row ∈ rows, row ∈ w.db.events
  | .readStream _ rows draft =>
    (∀ row ∈ rows, row ∈ w.db.events) ∧ ∀ d ∈ draft, WasCheckpoint cfg w d
  | .following state reader => Accounted w state ∧ RowsInv cfg state.latestSeq ⟨w, reader⟩ ∧
      TextsInv cfg state.latestSeq ⟨w, reader⟩
  | _ => True

/-- The invariant of a run that a client enters without losing anything. -/
structure ResumptionInv (cfg : Settings) (s : Resumption) : Prop where
  world : WorldKept cfg s.world
  client : ClientInv cfg s.world s.client

theorem ClientInv.env {a : Action} (h : ClientInv cfg w client) (hw : WorldKept cfg w)
    (hlate : ¬AppendsLate w a) (hemits : ¬EmitsLate cfg w a)
    (hrecover : ¬RecoversBelowEmitted cfg w a) (hstep : w.step cfg a = some w') :
    ClientInv cfg w' client := by
  have hrows : ∀ {rows : List RunEventResponse}, (∀ row ∈ rows, row ∈ w.db.events) →
      ∀ row ∈ rows, row ∈ w'.db.events := fun hmem row hrow =>
    World.events_subset_of_step hw.base hstep (hmem row hrow)
  cases client with
  | loadRun | listRows | raised => trivial
  | readDraft => exact hrows h
  | readStream =>
    refine ⟨hrows h.1, fun d hd => ?_⟩
    obtain ⟨l, hl, hcheckpoint⟩ := h.2 d hd
    exact ⟨l, hl.trans (World.accepted_isPrefix_of_step hstep), hcheckpoint⟩
  | following =>
    obtain ⟨haccounted, hrowsInv, htextsInv⟩ := h
    exact ⟨haccounted.env hw.base hlate hemits hrecover hstep, hrowsInv.env hlate hstep,
      htextsInv.env hemits (not_recoversBelow hrecover) hstep⟩

/-- A client that starts to follow the stream has lost nothing yet. -/
theorem WorldKept.clientInv_start (h : WorldKept cfg w) (haccounted : Accounted w state) :
    ClientInv cfg w (.following state (.start state.latestSeq)) := by
  have hbase : SubscriptionInv cfg state.latestSeq ⟨w, .start state.latestSeq⟩ :=
    subscriptionInv_open h.base state.latestSeq
  refine ⟨haccounted, ⟨hbase, h.last, fun row _ _ hlt hle => ?_, fun hpc => ?_⟩,
    ⟨hbase, h.below, ?_⟩⟩
  · exact absurd hlt (Nat.not_lt.mpr hle)
  · exact ReaderPc.noConfusion hpc
  · refine (List.filter_eq_nil_iff.mpr fun e _ hbetween => ?_).symm
    obtain ⟨hlt, hle⟩ := of_decide_eq_true hbetween
    exact absurd hlt (Nat.not_lt.mpr hle)

/-- The calls of the client keep the invariant. -/
theorem ResumptionInv.read (h : ResumptionInv cfg s) (hloses : ¬LosesResumed cfg s (.read redisOk))
    (hstep : s.client.step redisOk s.world = some client) :
    ClientInv cfg s.world client := by
  have hclient := h.client
  cases hpc : s.client with
  | loadRun =>
    rw [hpc] at hstep
    cases hstep
    trivial
  | listRows =>
    rw [hpc] at hstep
    cases hstep
    exact fun row hrow => mem_listRunEvents.mp hrow
  | readDraft =>
    rw [hpc] at hstep hclient
    cases hstep
    exact ⟨hclient, h.world.base.draft⟩
  | readStream =>
    simp only [LosesResumed, hpc] at hloses
    rw [hpc] at hstep hclient
    simp only [Client.step] at hstep
    split at hstep
    · rename_i state hstate
      cases hstep
      exact h.world.clientInv_start (h.world.accounted hclient.1 hclient.2 hloses hstate)
    · cases hstep
      trivial
  | raised =>
    rw [hpc] at hstep
    cases hstep
  | following state reader =>
    simp only [LosesResumed, hpc, not_or] at hloses
    rw [hpc] at hstep hclient
    obtain ⟨reader', hreader, rfl⟩ := Option.map_eq_some_iff.mp hstep
    obtain ⟨haccounted, hrows, htexts⟩ := hclient
    have hstep' : Subscription.step cfg ⟨s.world, reader⟩ (.read redisOk) =
        some ⟨s.world, reader'⟩ := by
      simp [Subscription.step, hreader]
    exact ⟨haccounted, hrows.step hloses.1 hstep', htexts.step hloses.2 hstep'⟩

/-- **Step lemma.** -/
theorem ResumptionInv.step {a : SubscriptionAction} (h : ResumptionInv cfg s)
    (hloses : ¬LosesResumed cfg s a) (hstep : s.step cfg a = some s') : ResumptionInv cfg s' := by
  cases a with
  | env =>
    obtain ⟨w', hw, rfl⟩ := Option.map_eq_some_iff.mp hstep
    simp only [LosesResumed, not_or] at hloses
    obtain ⟨hlate, hemits, hrecover⟩ := hloses
    exact ⟨h.world.step hlate hemits hrecover hw, h.client.env h.world hlate hemits hrecover hw⟩
  | read =>
    obtain ⟨client, hclient, rfl⟩ := Option.map_eq_some_iff.mp hstep
    exact ⟨h.world, h.read hloses hclient⟩

/-- A stream that contains the rows above a number contains each of them. -/
theorem DeliversRows.mem {afterSeq : ℕ} {s : Subscription} (h : DeliversRows afterSeq s)
    (hpc : s.reader.pc = .finished) {row : RunEventResponse} (hrow : row ∈ s.world.db.events)
    (hlt : afterSeq < row.seq) : ∃ y ∈ s.reader.yielded, y.toRunEvent = row.toRunEvent := by
  have hmem : row.toRunEvent ∈
      (listRunEventsAfter s.world.db afterSeq).map RunEventResponse.toRunEvent :=
    List.mem_map_of_mem (mem_listRunEventsAfter.mpr ⟨hrow, hlt⟩)
  rw [← h hpc] at hmem
  obtain ⟨y, hy, heq⟩ := List.mem_map.mp hmem
  exact ⟨y, (List.mem_filter.mp hy).1, heq⟩

/-- What the client has when its stream is over. -/
theorem complete_of_finished (haccounted : Accounted w state)
    (hrows : RowsInv cfg state.latestSeq ⟨w, reader⟩)
    (htexts : TextsInv cfg state.latestSeq ⟨w, reader⟩) (hpc : reader.pc = .finished) :
    Complete w state reader.yielded := by
  have hmem : ∀ row ∈ w.db.events, state.latestSeq < row.seq →
      ∃ y ∈ reader.yielded, y.toRunEvent = row.toRunEvent := fun row hrow hlt =>
    hrows.deliversRows.mem hpc hrow hlt
  obtain ⟨t, ht, htype, hyielded⟩ := hrows.ends hpc
  refine ⟨fun c => ?_, fun row hrow htype' => ?_, fun row hrow _ hlt => hmem row hrow hlt,
    t, ht, htype, ?_⟩
  · -- every delta is at or below `latest_seq` or the cursor
    have hbound : ∀ e ∈ textEvents w.worker.emitted,
        e.seq ≤ max state.latestSeq reader.cursor := by
      intro e he
      obtain ⟨hemitted, htext⟩ := List.mem_filter.mp he
      have hlt := htexts.below t ht htype e hemitted htext
      rcases Nat.lt_or_ge state.latestSeq t.seq with hafter | hle
      · obtain ⟨y, hy, heq⟩ := hyielded hafter
        have hytype : y.type = t.type := congrArg RunEvent.type heq
        have hyseq : y.seq = t.seq := congrArg RunEvent.seq heq
        have hcursor := (hrows.base.terminal y hy (hytype ▸ htype)).2
        dsimp only at hcursor
        omega
      · omega
    have hascending : SeqLog.Ascending RunEvent.seq (textEvents w.worker.emitted) :=
      hrows.base.world.emitted_ascending.filter _
    have hcut : (textEvents w.worker.emitted).filter
        (fun e => state.latestSeq < e.seq ∧ e.seq ≤ reader.cursor) =
          (textEvents w.worker.emitted).filter
            fun e => state.latestSeq < e.seq ∧ e.seq ≤ max state.latestSeq reader.cursor := by
      refine List.filter_congr fun e _ => ?_
      simp only [decide_eq_decide]
      omega
    calc state.channel c ++ channelText c (reader.yielded.map RunEventResponse.toRunEvent)
        = channelText c ((textEvents w.worker.emitted).filter fun e => e.seq ≤ state.latestSeq) ++
            channelText c (textEvents (reader.yielded.map RunEventResponse.toRunEvent)) := by
          rw [haccounted.texts c, textEvents, textEvents, List.filter_comm,
            channelText_filter_carriesText, channelText_filter_carriesText]
      _ = channelText c ((textEvents w.worker.emitted).filter
            fun e => e.seq ≤ max state.latestSeq reader.cursor) := by
          rw [htexts.texts, hcut, ← channelText_append,
            hascending.filter_le_append_filter_lt (le_max_left _ _)]
      _ = channelText c w.worker.emitted := by
          rw [List.filter_eq_self.mpr fun e he => decide_eq_true (hbound e he), textEvents,
            channelText_filter_carriesText]
  · rcases Nat.lt_or_ge state.latestSeq row.seq with hlt | hle
    · exact .inl (hmem row hrow hlt)
    · exact .inr (haccounted.sources row hrow hle htype')
  · rcases Nat.lt_or_ge state.latestSeq t.seq with hlt | hle
    · exact .inr (hmem t ht hlt)
    · exact .inl (haccounted.terminal t ht hle htype)

theorem ResumptionInv.resumesWhole (h : ResumptionInv cfg s) : ResumesWhole s := by
  intro p hp
  have hclient := h.client
  cases hpc : s.client with
  | following =>
    rw [hpc] at hp hclient
    cases hp
    obtain ⟨haccounted, hrows, htexts⟩ := hclient
    exact ⟨haccounted.toAccounts, complete_of_finished haccounted hrows htexts⟩
  | _ =>
    rw [hpc] at hp
    cases hp

/-- **Nothing falls between the state and the stream**, in every interleaving in which no step
loses anything. -/
theorem resumesWhole_of_along
    (hrun : StepSystem.run (Resumption.step cfg) (.open World.init) as = some s)
    (halong : StepSystem.Along (Resumption.step cfg) (fun s a => ¬LosesResumed cfg s a)
      (.open World.init) as) : ResumesWhole s := by
  have hinit : ResumptionInv cfg (.open World.init) := ⟨worldKept_init, trivial⟩
  exact (StepSystem.run_invariant_along (fun _ _ _ h hloses hstep => h.step hloses hstep) hinit
    halong hrun).resumesWhole

/-- A worker has the run, and its agent has started a search. -/
def startSearch : List SubscriptionAction :=
  [.env (.claim "worker-1" 30 0), .env (.prepare none), .env (.listPersisted true),
    .env (.publishPersisted true), .env .startStreaming,
    .env (.emit (.toolCallStarted "web_search" [] 1)), .env (.redisSink true 1),
    .env (.postgresSink true 1), .env (.draftSink true 1)]

/-- The search succeeds with one source; the stream has the event, the log does not yet. -/
def searchReachesStream : List SubscriptionAction :=
  [.env (.emit (.toolCallFinished "web_search" false [("sources", .arr [.obj [("id", .int 1),
      ("title", .str "A page"), ("url", .str "page")]])] none)),
    .env (.redisSink true 2)]

/-- The other two sinks take the event. -/
def searchReachesLog : List SubscriptionAction :=
  [.env (.postgresSink true 2), .env (.draftSink true 2)]

/-- A client asks for the state. -/
def readState : List SubscriptionAction := [.read true, .read true, .read true, .read true]

/-- The run succeeds, and the client follows the stream to its end. -/
def succeedAndFollow : List SubscriptionAction :=
  [.env (.endStream .succeeded [⟨.assistant, []⟩] none none none), .env (.flushSinks true 3),
    .env (.finalize true none [] 3), .env (.publishTerminal true 3),
    .read true, .read true, .read true]

/-- The state is read between the two sinks. -/
def stateBetweenSinks : List SubscriptionAction :=
  startSearch ++ searchReachesStream ++ readState ++ searchReachesLog ++ succeedAndFollow

/-- The client of `stateBetweenSinks` never gets the source: `latest_seq` is the number of the
event, which the state does not account for, and the stream starts above it. -/
theorem stateBetweenSinks_loses_source :
    ∃ s, StepSystem.run (Resumption.step Settings.default) (.open World.init)
        stateBetweenSinks = some s ∧
      (∃ p ∈ s.client.followed?, p.2.pc = .finished ∧ p.1.latestSeq = 3 ∧ p.1.sources = [] ∧
        p.2.yielded.map (fun e => (e.seq, e.type)) = [(4, .runSucceeded)]) ∧
      s.world.db.events.map (fun e => (e.seq, e.type)) = [(1, .runStarted), (2, .toolCallStarted),
        (3, .toolCallSucceeded), (4, .runSucceeded)] ∧
      ¬ResumesWhole s := by
  obtain ⟨s, hrun, hclient, hevents, p, hp, hpc, row, hrow, htype, hmissing, source, hsource,
      habsent⟩ : ∃ s, StepSystem.run (Resumption.step Settings.default) (.open World.init)
        stateBetweenSinks = some s ∧
      (∃ p ∈ s.client.followed?, p.2.pc = .finished ∧ p.1.latestSeq = 3 ∧ p.1.sources = [] ∧
        p.2.yielded.map (fun e => (e.seq, e.type)) = [(4, .runSucceeded)]) ∧
      s.world.db.events.map (fun e => (e.seq, e.type)) = [(1, .runStarted), (2, .toolCallStarted),
        (3, .toolCallSucceeded), (4, .runSucceeded)] ∧
      ∃ p ∈ s.client.followed?, p.2.pc = .finished ∧ ∃ row ∈ s.world.db.events,
        row.type = .toolCallSucceeded ∧ (∀ y ∈ p.2.yielded, y.toRunEvent ≠ row.toRunEvent) ∧
          ∃ source ∈ (toolSources row.payload).getD [], ∀ x ∈ p.1.sources, x.id ≠ source.id :=
    StepSystem.exists_run (by decide +kernel)
  refine ⟨s, hrun, hclient, hevents, fun hwhole => ?_⟩
  rcases ((hwhole p hp).2 hpc).sources row hrow htype with ⟨y, hy, heq⟩ | hall
  · exact hmissing y hy heq
  · obtain ⟨x, hx, hid⟩ := hall source hsource
    exact habsent x hx hid

/-- The state is read when both sinks have the event. -/
def stateAfterSinks : List SubscriptionAction :=
  startSearch ++ searchReachesStream ++ searchReachesLog ++ readState ++ succeedAndFollow

theorem stateAfterSinks_resumesWhole :
    ∃ s, StepSystem.run (Resumption.step Settings.default) (.open World.init)
        stateAfterSinks = some s ∧
      (∃ p ∈ s.client.followed?, p.2.pc = .finished ∧ p.1.latestSeq = 3) ∧ ResumesWhole s := by
  obtain ⟨s, hrun, hclient⟩ : ∃ s, StepSystem.run (Resumption.step Settings.default)
      (.open World.init) stateAfterSinks = some s ∧
        ∃ p ∈ s.client.followed?, p.2.pc = .finished ∧ p.1.latestSeq = 3 :=
    StepSystem.exists_run (by decide +kernel)
  exact ⟨s, hrun, hclient, resumesWhole_of_along hrun (by decide +kernel)⟩

end IChat
