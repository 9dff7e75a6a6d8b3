import IChat.Runs.StreamEnds

/-!
# Does a stream contain every delta once?

A client that reads a run to its terminal event appends the deltas it is given, without looking at
their numbers. `DeliversTexts` says that this yields what the worker emitted, channel by channel.

Three things can go wrong. The first iteration merges a draft with the replay of the stream; when
the replay already contains every event the draft retains, the draft is taken for newer than the
stream and its whole snapshot is yielded again (`RepeatsSnapshot`). An answer may lie above a delta
that no answer contains, and the cursor then passes it (`SkipsText`). And a worker whose run was
ended by recovery may have emitted, or still emit, deltas that are not below the terminal event
(`EmitsLate`, `RecoversBelow`).

`deliversTexts_of_along`: nothing else can. The numbers of a stream never decrease in any case.
-/

namespace IChat

variable {cfg : Settings} {afterSeq : ℕ} {s s' : Subscription} {w' : World} {r' : Reader}
  {as : List SubscriptionAction}

/-- A stream that was read to the terminal event gives, on every channel, the deltas above
`afterSeq` that the worker has emitted. -/
def DeliversTexts (afterSeq : ℕ) (s : Subscription) : Prop :=
  (∃ e ∈ s.reader.yielded, e.type.isTerminal = true) →
    ∀ c, channelText c (s.reader.yielded.map RunEventResponse.toRunEvent) =
      channelText c (s.world.worker.emitted.filter fun e => afterSeq < e.seq)

/-- The events `answer` leave out an emitted delta that lies above the cursor and at or below the
number `top`. -/
def LeavesOutText (s : Subscription) (answer : List RunEvent) (top : ℕ) : Prop :=
  ∃ e ∈ s.world.worker.emitted, e.carriesText = true ∧ s.reader.cursor < e.seq ∧ e.seq ≤ top ∧
    e ∉ answer

/-- The reader is about to deliver answers that leave out a delta below something they contain, or
below the number of the draft. -/
def SkipsText (s : Subscription) (redisOk : Bool) : Prop :=
  match s.reader.pc with
  | .tail => redisOk = true ∧ ∃ e ∈ s.world.stream.readAfter s.reader.cursor,
      LeavesOutText s
        ((s.world.stream.readAfter s.reader.cursor).map RunEventResponse.toRunEvent) e.seq
  | .readDraft persisted streamed =>
    let answer := streamed.map RunEventResponse.toRunEvent ++
      retainedAfter s.world.db.draft s.reader.cursor
    (∃ e ∈ persisted ++ streamed, LeavesOutText s answer e.seq) ∨
      ∃ d ∈ s.world.db.draft, LeavesOutText s answer d.seq
  | _ => False

/-- The reader is about to merge a draft whose retained events are all in the replay. -/
def RepeatsSnapshot (s : Subscription) : Prop :=
  match s.reader.pc with
  | .readDraft _ streamed =>
    s.reader.checkpointBaselineKnown = true ∧ ∃ d ∈ s.world.db.draft, s.reader.cursor < d.seq ∧
      ∀ e ∈ retainedAfter s.world.db.draft s.reader.cursor, e.seq ∈ streamed.map fun e => e.seq
  | _ => False

/-- The worker is about to emit a delta although the run is over. -/
def EmitsLate (cfg : Settings) (w : World) : Action → Prop
  | .emit event => runHasTerminalEvent w.db = true ∧
      ∃ e ∈ toRunEvent event (w.worker.latestSeq + 1) cfg.toolBackendNames, e.carriesText = true
  | _ => False

/-- Recovery is about to end the run with a number that is not above every delta. -/
def RecoversBelow (cfg : Settings) (w : World) : Action → Prop
  | .recover => ∃ seq ∈ w.recoverySeq cfg, ∃ e ∈ w.worker.emitted, e.carriesText = true ∧
      seq ≤ e.seq
  | _ => False

/-- The step loses a delta, repeats some, or lets one escape the terminal event. -/
def LosesText (cfg : Settings) (s : Subscription) : SubscriptionAction → Prop
  | .env action => EmitsLate cfg s.world action ∨ RecoversBelow cfg s.world action
  | .read redisOk => SkipsText s redisOk ∨ RepeatsSnapshot s

section Decidable

instance (s : Subscription) (answer : List RunEvent) (top : ℕ) :
    Decidable (LeavesOutText s answer top) :=
  inferInstanceAs (Decidable (∃ e ∈ s.world.worker.emitted, _))

instance (s : Subscription) (redisOk : Bool) : Decidable (SkipsText s redisOk) := by
  dsimp only [SkipsText]
  generalize s.reader.pc = pc
  induction pc using ReaderPc.casesOn <;> infer_instance

instance (s : Subscription) : Decidable (RepeatsSnapshot s) := by
  dsimp only [RepeatsSnapshot]
  generalize s.reader.pc = pc
  induction pc using ReaderPc.casesOn <;> infer_instance

instance (cfg : Settings) (w : World) (a : Action) : Decidable (EmitsLate cfg w a) := by
  induction a using Action.casesOn <;> dsimp only [EmitsLate] <;> infer_instance

instance (cfg : Settings) (w : World) (a : Action) : Decidable (RecoversBelow cfg w a) := by
  induction a using Action.casesOn <;> dsimp only [RecoversBelow] <;> infer_instance

instance (cfg : Settings) (s : Subscription) (a : SubscriptionAction) :
    Decidable (LosesText cfg s a) := by
  induction a using SubscriptionAction.casesOn <;> dsimp only [LosesText] <;> infer_instance

end Decidable

/-- Every delta lies below the terminal event. -/
def TextsBelow (w : World) : Prop :=
  ∀ t ∈ w.db.events, t.type.isTerminal = true →
    ∀ e ∈ w.worker.emitted, e.carriesText = true → e.seq < t.seq

/-- The invariant of a run that loses no delta: what was yielded is what was emitted up to the
cursor, and the terminal event is above it. -/
structure TextsInv (cfg : Settings) (afterSeq : ℕ) (s : Subscription) : Prop where
  base : SubscriptionInv cfg afterSeq s
  below : TextsBelow s.world
  texts : textEvents (s.reader.yielded.map RunEventResponse.toRunEvent) =
    (textEvents s.world.worker.emitted).filter
      fun e => afterSeq < e.seq ∧ e.seq ≤ s.reader.cursor

/-! ### The steps of the others -/

/-- A new terminal event is above every delta, unless recovery chose its number too low. -/
theorem WorldInv.new_terminal {w : World} {a : Action} {t : RunEventResponse} (h : WorldInv cfg w)
    (hrecover : ¬RecoversBelow cfg w a) (hkind : RowKind cfg w a t)
    (htype : t.type.isTerminal = true) {e : RunEvent} (he : e ∈ w.worker.emitted)
    (htext : e.carriesText = true) : e.seq < t.seq := by
  cases hkind with
  | started hstarted =>
    rw [hstarted] at htype
    cases htype
  | semantic e' _ _ _ hrow =>
    have hforwarded := RunEventType.isTerminal_eq_false_of_isForwarded e'.forwarded
    rw [show t.type = e'.type from congrArg RunEvent.type hrow, hforwarded] at htype
    cases htype
  | ended _ _ hseq =>
    rcases hseq with ⟨hseq, -⟩ | ⟨rfl, hseq⟩ | ⟨hidle, -⟩
    · have hle := (h.seq_bounds he).2
      omega
    · by_contra hle
      exact hrecover ⟨_, hseq, e, he, htext, Nat.not_lt.mp hle⟩
    · rw [h.emitted_eq_nil (by rw [hidle]; rfl)] at he
      cases he

theorem World.db_of_emit {w : World} {event : AgentEvent}
    (hstep : w.step cfg (.emit event) = some w') : w'.db = w.db := by
  replace hstep := World.move_of_step hstep
  simp only [World.move, World.workerStep] at hstep
  split at hstep
  · split at hstep <;> cases hstep
    rfl
  · cases hstep

/-- A delta is only emitted, without being late, while the run is active. -/
theorem active_of_not_emitsLate {w : World} {event : AgentEvent} {e : SinkEvent}
    (hemits : ¬EmitsLate cfg w (.emit event))
    (he : toRunEvent event (w.worker.latestSeq + 1) cfg.toolBackendNames = some e)
    (htext : e.carriesText = true) : runHasTerminalEvent w.db = false := by
  by_contra hterminal
  exact hemits ⟨by simpa using hterminal, e, he, htext⟩

/-- The deltas stay below the terminal event. -/
theorem textsBelow_step {w : World} {a : Action} (h : WorldInv cfg w) (hbelow : TextsBelow w)
    (hemits : ¬EmitsLate cfg w a) (hrecover : ¬RecoversBelow cfg w a)
    (hstep : w.step cfg a = some w') : TextsBelow w' := by
  intro t ht htype e he htext
  rcases World.step_emitted hstep with hsame | ⟨e', event, rfl, -, he', -, hemitted⟩
  · rw [hsame] at he
    rcases World.step_rows h hstep with hrows | ⟨row, happend, hkind⟩
    · rw [hrows] at ht
      exact hbelow t ht htype e he htext
    · rw [happend.events] at ht
      rcases List.mem_append.mp ht with hold | hnew
      · exact hbelow t hold htype e he htext
      · obtain rfl := List.mem_singleton.mp hnew
        exact h.new_terminal hrecover hkind htype he htext
  · rw [World.db_of_emit hstep] at ht
    rw [hemitted] at he
    rcases List.mem_append.mp he with hold | hnew
    · exact hbelow t ht htype e hold htext
    · rw [List.mem_singleton.mp hnew] at htext
      have hactive := active_of_not_emitsLate hemits he' htext
      rw [runHasTerminalEvent_iff.mpr ⟨t, ht, htype⟩] at hactive
      cases hactive

/-- The steps of the others keep the invariant. -/
theorem TextsInv.env {a : Action} (h : TextsInv cfg afterSeq s)
    (hemits : ¬EmitsLate cfg s.world a) (hrecover : ¬RecoversBelow cfg s.world a)
    (hstep : s.world.step cfg a = some w') :
    TextsInv cfg afterSeq { s with world := w' } := by
  refine ⟨h.base.env hstep, textsBelow_step h.base.world h.below hemits hrecover hstep, ?_⟩
  show textEvents _ = (textEvents w'.worker.emitted).filter _
  rcases World.step_emitted hstep with hsame | ⟨e, event, rfl, hphase, he, -, hemitted⟩
  · rw [hsame]
    exact h.texts
  · -- the cursor is below the number of a new delta
    have hseq : e.seq = s.world.worker.latestSeq + 1 := toRunEvent_seq he
    have hprepared : s.world.worker.phase.isPrepared = true := by rw [hphase]; rfl
    have hnil : (textEvents [e.toRunEvent]).filter
        (fun e => afterSeq < e.seq ∧ e.seq ≤ s.reader.cursor) = [] := by
      refine List.filter_eq_nil_iff.mpr fun e' he' => ?_
      obtain ⟨hmem, htext⟩ := List.mem_filter.mp he'
      rw [List.mem_singleton.mp hmem] at htext ⊢
      have hcursor := h.base.cursor_le_latestSeq hprepared
        (h.base.not_terminal_of_active (active_of_not_emitsLate hemits he htext))
      simp only [decide_eq_true_eq]
      omega
    rw [hemitted, textEvents_append, List.filter_append, hnil, List.append_nil]
    exact h.texts

/-! ### Deliveries -/

/-- A strictly ascending batch that contains the deltas the cursor passes, and no other text, keeps
the invariant. -/
theorem TextsInv.delivers {next : ReaderPc} {batch : List RunEventResponse} {top : ℕ}
    (h : TextsInv cfg afterSeq s)
    (hascending : SeqLog.Ascending (fun e : RunEventResponse => e.seq) batch)
    (habove : ∀ e ∈ batch, s.reader.cursor < e.seq)
    (hd : s.reader.Delivers r' next batch top)
    (hinv : SubscriptionInv cfg afterSeq { s with reader := r' })
    (hemitted : ∀ e ∈ batch, e.carriesText = true → e.toRunEvent ∈ s.world.worker.emitted)
    (hall : ∀ e ∈ s.world.worker.emitted, e.carriesText = true → s.reader.cursor < e.seq →
      e.seq ≤ r'.cursor → ∃ y ∈ batch, y.toRunEvent = e) :
    TextsInv cfg afterSeq { s with reader := r' } := by
  refine ⟨hinv, h.below, ?_⟩
  show textEvents (r'.yielded.map RunEventResponse.toRunEvent) =
    (textEvents s.world.worker.emitted).filter fun e => afterSeq < e.seq ∧ e.seq ≤ r'.cursor
  refine h.base.textEvents_delivers hascending habove hd h.texts hemitted fun e he htext => ?_
  simp only [decide_eq_true_eq]
  constructor
  · rintro ⟨hafter, hle⟩
    rcases Nat.lt_or_ge s.reader.cursor e.seq with hlt | hge
    · obtain ⟨y, hy, rfl⟩ := hall e he htext hlt hle
      refine .inr ⟨y, ?_, rfl⟩
      rcases SeqLog.mem_takeThrough_or (p := fun e => e.type.isTerminal) hascending hy with
        hkept | ⟨t, ht, htype, hafterTerminal⟩
      · exact hkept
      · have hcursor := hd.cursor_of_terminal t ht htype
        have hle' : y.seq ≤ r'.cursor := hle
        have hlt' : t.seq < y.seq := hafterTerminal
        omega
    · exact .inl ⟨hafter, hge⟩
  · rintro (⟨hafter, hle⟩ | ⟨y, hy, rfl⟩)
    · exact ⟨hafter, hle.trans hd.cursor_le⟩
    · have hlt := habove y (SeqLog.mem_of_mem_takeThrough hy)
      exact ⟨h.base.afterSeq_le.trans_lt hlt, hd.le_cursor y hy⟩

/-- The calls of the reader keep the invariant. -/
theorem TextsInv.read {redisOk : Bool} (h : TextsInv cfg afterSeq s)
    (hskip : ¬SkipsText s redisOk) (hrepeat : ¬RepeatsSnapshot s)
    (hstep : s.reader.step redisOk s.world.db s.world.stream = some r') :
    TextsInv cfg afterSeq { s with reader := r' } := by
  have hinv := h.base.read hstep
  have hemitted : ∀ e : RunEventResponse, s.world.Knows e.toRunEvent → e.carriesText = true →
      e.toRunEvent ∈ s.world.worker.emitted := fun e hknown htext =>
    h.base.world.emitted_of_carriesText hknown htext
  -- the first two reads yield nothing; the third drains Redis, the last merges
  rcases Subscription.read_cases h.base hstep with ⟨pc, rfl, -, -, -, -⟩ | ⟨persisted, -, rfl⟩ |
    ⟨hpc, rfl, hanswer, hd⟩ | ⟨persisted, streamed, checkpointEvents, hpc, hrows, hentries,
      hcheckpoint, hd⟩
  · exact ⟨hinv, h.below, h.texts⟩
  · exact ⟨hinv, h.below, h.texts⟩
  · refine h.delivers hanswer.ascending hanswer.above hd hinv
      (fun e he => hemitted e (hanswer.known e he)) fun e he htext hlt hle => ?_
    simp only [SkipsText, hpc, true_and] at hskip
    by_contra hmissing
    -- below the batch's last number the condition says that nothing is missing
    rcases hd.le_batch_or_top hlt hle with ⟨y, hy, hle'⟩ | htop
    · refine hskip ⟨y, hy, e, he, htext, hlt, hle', fun hmem => hmissing ?_⟩
      obtain ⟨y', hy', heq⟩ := List.mem_map.mp hmem
      exact ⟨y', hy', heq⟩
    · omega
  · simp only [SkipsText, hpc, not_or] at hskip
    simp only [RepeatsSnapshot, hpc] at hrepeat
    obtain ⟨hnodup, hnew, hcheckpointEmitted, hretained⟩ :=
      h.base.world.checkpointEvents_spec hcheckpoint hrepeat
    have hmem : ∀ e, e ∈ Reader.mergeEvents streamed checkpointEvents persisted ↔
        e ∈ persisted ∨ (∀ row ∈ persisted, row.seq ≠ e.seq) ∧
          (e ∈ streamed ∨ e ∈ checkpointEvents) :=
      fun e => Reader.mem_mergeEvents hentries.nodup hrows.nodup
    refine h.delivers
      (Reader.ascending_mergeEvents hentries.nodup hrows.nodup hnodup hnew)
      (batch_mergeEvents h.base.world hrows hentries hcheckpoint).above hd hinv
      (fun e he htext => ?_) fun e he htext hlt hle => ?_
    · rcases (hmem e).mp he with he | ⟨-, he | he⟩
      · exact hemitted e (.inr ⟨e, hrows.mem e he, rfl⟩) htext
      · exact hemitted e (hentries.known e he) htext
      · exact hcheckpointEmitted e he
    · -- the delta is in one of the two answers, and no row has its number
      have hanswer : e ∈ streamed.map RunEventResponse.toRunEvent ++
          retainedAfter s.world.db.draft s.reader.cursor := by
        by_contra hmissing
        rcases hd.le_answers h.base.world hrows hentries hcheckpoint hlt hle with
          ⟨y, hy, hle'⟩ | ⟨d, hdraft, hle'⟩
        · exact hskip.1 ⟨y, hy, e, he, htext, hlt, hle', hmissing⟩
        · exact hskip.2 ⟨d, hdraft, e, he, htext, hlt, hle', hmissing⟩
      have hfree : ∀ row ∈ persisted, row.seq ≠ e.seq := fun row hrow =>
        h.base.world.row_seq_ne (hrows.mem row hrow) he htext fun hterminal =>
          h.below row (hrows.mem row hrow) hterminal e he htext
      have hstreamed : ∀ y ∈ streamed, y.seq = e.seq → y.toRunEvent = e := by
        intro y hy hseq
        rcases hentries.known y hy with hknown | ⟨row, hrow, heq⟩
        · exact h.base.world.emitted_ascending.eq_of_key_eq hknown he hseq
        · have hrowSeq : row.seq = y.seq := congrArg RunEvent.seq heq
          exact absurd (hrowSeq.trans hseq) (h.base.world.row_seq_ne hrow he htext fun hterminal =>
            h.below row hrow hterminal e he htext)
      by_cases hcovered : e.seq ∈ streamed.map fun e => e.seq
      · obtain ⟨y, hy, hseq⟩ := List.mem_map.mp hcovered
        have heq := hstreamed y hy hseq
        exact ⟨y, (hmem y).mpr (.inr ⟨fun row hrow => hseq ▸ hfree row hrow, .inl hy⟩), heq⟩
      · rcases List.mem_append.mp hanswer with hmap | hdraft
        · obtain ⟨y, hy, rfl⟩ := List.mem_map.mp hmap
          exact absurd (List.mem_map_of_mem hy) hcovered
        · obtain ⟨y, hy, rfl⟩ := hretained e hdraft hcovered
          exact ⟨y, (hmem y).mpr (.inr ⟨hfree, .inr hy⟩), rfl⟩

/-! ### Whole runs -/

/-- **Step lemma.** -/
theorem TextsInv.step {a : SubscriptionAction} (h : TextsInv cfg afterSeq s)
    (hloses : ¬LosesText cfg s a) (hstep : s.step cfg a = some s') : TextsInv cfg afterSeq s' := by
  cases a with
  | env =>
    obtain ⟨w', hw, rfl⟩ := Option.map_eq_some_iff.mp hstep
    exact h.env (fun hemits => hloses (.inl hemits)) (fun hbelow => hloses (.inr hbelow)) hw
  | read =>
    obtain ⟨r', hr, rfl⟩ := Option.map_eq_some_iff.mp hstep
    exact h.read (fun hskips => hloses (.inl hskips)) (fun hrepeats => hloses (.inr hrepeats)) hr

/-- The invariant, read when the terminal event is yielded. -/
theorem TextsInv.deliversTexts (h : TextsInv cfg afterSeq s) : DeliversTexts afterSeq s := by
  rintro ⟨t, ht, htype⟩ c
  obtain ⟨row, hrow, heq⟩ := h.base.terminal_row ht htype
  have hrowType : row.type = t.type := congrArg RunEvent.type heq
  have hrowSeq : row.seq = t.seq := congrArg RunEvent.seq heq
  have hcursor := (h.base.terminal t ht htype).2
  -- every delta lies below the terminal event, so the cursor cuts none off
  have hcut : (textEvents s.world.worker.emitted).filter
      (fun e => afterSeq < e.seq ∧ e.seq ≤ s.reader.cursor) =
        textEvents (s.world.worker.emitted.filter fun e => afterSeq < e.seq) := by
    rw [textEvents, textEvents, List.filter_filter, List.filter_filter]
    refine List.filter_congr fun e he => ?_
    cases htext : e.carriesText with
    | false => simp
    | true =>
      have hlt := h.below row hrow (hrowType ▸ htype) e he htext
      have hle : e.seq ≤ s.reader.cursor := by omega
      simp [hle]
  rw [← channelText_filter_carriesText, show List.filter _ _ = _ from h.texts, hcut, textEvents,
    channelText_filter_carriesText]

/-- **Exactly once.** In every interleaving the numbers of a stream never decrease, and when no
step loses a delta, a stream read to its terminal event gives every delta above `afterSeq` once. -/
theorem deliversTexts_of_along
    (hrun : StepSystem.run (Subscription.step cfg) (.open World.init afterSeq) as = some s) :
    (s.reader.yielded.Pairwise fun a b => a.seq ≤ b.seq) ∧
      (StepSystem.Along (Subscription.step cfg) (fun s a => ¬LosesText cfg s a)
        (.open World.init afterSeq) as → DeliversTexts afterSeq s) := by
  have hworld : WorldInv cfg World.init := worldInv_init
  refine ⟨?_, fun halong => ?_⟩
  · have hbase := subscriptionInv_of_run hworld hrun
    exact hbase.yieldedOrder.imp fun hab => hab.elim (fun hlt => hlt.le) fun heq => heq.1.le
  · have hinit : TextsInv cfg afterSeq (.open World.init afterSeq) :=
      { base := subscriptionInv_open hworld afterSeq
        below := fun t ht => by cases ht
        texts := rfl }
    exact (StepSystem.run_invariant_along (fun _ _ _ h hloses hstep => h.step hloses hstep) hinit
      halong hrun).deliversTexts

/-- A worker emits one delta and its sinks take it; nothing is checkpointed yet. -/
def emitHello : List SubscriptionAction :=
  [.env (.claim "worker-1" 30 0), .env (.prepare none), .env (.listPersisted true),
    .env (.publishPersisted true), .env .startStreaming, .env (.emit (.textDelta "Hello")),
    .env (.redisSink true 1), .env (.postgresSink true 1), .env (.draftSink true 1)]

/-- The first iteration of a client. -/
def firstIteration : List SubscriptionAction := [.read true, .read true, .read true, .read true]

/-- The run succeeds and the client reads the terminal event. -/
def succeedAndRead : List SubscriptionAction :=
  [.env (.endStream .succeeded [⟨.assistant, [.text "Hello"]⟩] none none none),
    .env (.flushSinks true 3), .env (.finalize true none [] 3), .env (.publishTerminal true 3),
    .read true]

/-- A client connects after the delta was checkpointed. -/
def connectsAfterCheckpoint : List SubscriptionAction :=
  emitHello ++ [.env (.draftTimer true 2)] ++ firstIteration ++ succeedAndRead

/-- The client of `connectsAfterCheckpoint` gets the text twice. -/
theorem connectsAfterCheckpoint_repeats :
    ∃ s, StepSystem.run (Subscription.step Settings.default) (.open World.init 0)
        connectsAfterCheckpoint = some s ∧
      channelText .text (s.reader.yielded.map RunEventResponse.toRunEvent) = "HelloHello" ∧
      channelText .text (s.world.worker.emitted.filter fun e => 0 < e.seq) = "Hello" ∧
      ¬DeliversTexts 0 s := by
  obtain ⟨s, hrun, hterminal, hyielded, hemitted⟩ : ∃ s, StepSystem.run
      (Subscription.step Settings.default) (.open World.init 0) connectsAfterCheckpoint = some s ∧
        (∃ e ∈ s.reader.yielded, e.type.isTerminal = true) ∧
        channelText .text (s.reader.yielded.map RunEventResponse.toRunEvent) = "HelloHello" ∧
        channelText .text (s.world.worker.emitted.filter fun e => 0 < e.seq) = "Hello" :=
    StepSystem.exists_run (by decide +kernel)
  refine ⟨s, hrun, hyielded, hemitted, fun hdelivers => ?_⟩
  have htext := hdelivers hterminal .text
  rw [hyielded, hemitted] at htext
  exact absurd htext (by decide)

/-- A client connects before the delta is checkpointed. -/
def connectsBeforeCheckpoint : List SubscriptionAction :=
  emitHello ++ firstIteration ++ [.env (.draftTimer true 2)] ++ succeedAndRead

theorem connectsBeforeCheckpoint_deliversTexts :
    ∃ s, StepSystem.run (Subscription.step Settings.default) (.open World.init 0)
        connectsBeforeCheckpoint = some s ∧
      (∃ e ∈ s.reader.yielded, e.type.isTerminal = true) ∧ DeliversTexts 0 s := by
  obtain ⟨s, hrun, hterminal⟩ : ∃ s, StepSystem.run (Subscription.step Settings.default)
      (.open World.init 0) connectsBeforeCheckpoint = some s ∧
        ∃ e ∈ s.reader.yielded, e.type.isTerminal = true :=
    StepSystem.exists_run (by decide +kernel)
  exact ⟨s, hrun, hterminal, (deliversTexts_of_along hrun).2 (by decide +kernel)⟩

end IChat
