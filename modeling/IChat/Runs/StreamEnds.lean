import IChat.Runs.Subscription

/-!
# Does a stream end with its terminal event?

A reader that finishes has either yielded a terminal event, or asked `run_has_terminal_event` and
got an answer. The second question is a later statement than the one that listed the rows, so a
terminal event committed in between is found but never yielded.

`endsWithTerminal_iff`: a stream that is over contains the terminal event exactly in the runs in
which no such check succeeds (`EndsUnlisted`).
-/

namespace IChat

variable {cfg : Settings} {afterSeq : ℕ} {s s' : Subscription} {as : List SubscriptionAction}

/-- A stream that is over contains the terminal event of the run, if the client did not start
behind it. -/
def EndsWithTerminal (afterSeq : ℕ) (s : Subscription) : Prop :=
  s.reader.pc = .finished →
    ∃ t ∈ s.world.db.events, t.type.isTerminal = true ∧
      (afterSeq < t.seq → ∃ e ∈ s.reader.yielded, e.toRunEvent = t.toRunEvent)

instance (afterSeq : ℕ) (s : Subscription) : Decidable (EndsWithTerminal afterSeq s) :=
  inferInstanceAs (Decidable (_ → ∃ t ∈ s.world.db.events, _ ∧ (_ → ∃ e ∈ s.reader.yielded, _)))

/-- The reader is about to ask for a terminal event, and the log holds one that its iteration has
not listed. -/
def EndsUnlisted (afterSeq : ℕ) (s : Subscription) : SubscriptionAction → Prop
  | .read _ =>
    match s.reader.pc with
    | .terminalCheck persisted =>
      ∃ t ∈ s.world.db.events, t.type.isTerminal = true ∧ afterSeq < t.seq ∧ t ∉ persisted
    | _ => False
  | .env _ => False

instance (afterSeq : ℕ) (s : Subscription) (a : SubscriptionAction) :
    Decidable (EndsUnlisted afterSeq s a) := by
  induction a using SubscriptionAction.casesOn with
  | env => exact isFalse id
  | read =>
    dsimp only [EndsUnlisted]
    generalize s.reader.pc = pc
    induction pc using ReaderPc.casesOn <;> infer_instance

/-- A reader that delivers a batch and is then finished has yielded a terminal event. -/
theorem Reader.Delivers.exists_terminal {r r' : Reader} {next : ReaderPc}
    {batch : List RunEventResponse} {top : ℕ} (hd : r.Delivers r' next batch top)
    (hnext : next ≠ .finished) (hpc : r'.pc = .finished) :
    ∃ e ∈ r'.yielded, e.type.isTerminal = true := by
  have hany : batch.any (fun e => e.type.isTerminal) = true := by
    by_contra hnone
    rw [hd.pc, if_neg hnone] at hpc
    exact hnext hpc
  obtain ⟨e, he, htype⟩ := SeqLog.exists_mem_takeThrough (List.any_eq_true.mp hany)
  rw [hd.yielded]
  exact ⟨e, List.mem_append_right _ he, htype⟩

/-- A call that does not end the stream unlisted keeps the property. -/
theorem endsWithTerminal_step {a : SubscriptionAction} (h : SubscriptionInv cfg afterSeq s)
    (hends : EndsWithTerminal afterSeq s) (hcheck : ¬EndsUnlisted afterSeq s a)
    (hstep : s.step cfg a = some s') : EndsWithTerminal afterSeq s' := by
  have hinv := h.step hstep
  cases a with
  | env =>
    obtain ⟨w', hw, rfl⟩ := Option.map_eq_some_iff.mp hstep
    intro hpc
    obtain ⟨t, ht, htype, hyielded⟩ := hends hpc
    exact ⟨t, World.events_subset_of_step h.world hw ht, htype, hyielded⟩
  | read =>
    obtain ⟨r', hr, rfl⟩ := Option.map_eq_some_iff.mp hstep
    -- a yielded terminal event is enough
    have hof : (∃ e ∈ r'.yielded, e.type.isTerminal = true) →
        EndsWithTerminal afterSeq { s with reader := r' } := by
      rintro ⟨e, he, htype⟩ -
      obtain ⟨row, hrow, heq⟩ := hinv.terminal_row he htype
      have hrowType : row.type = e.type := congrArg RunEvent.type heq
      exact ⟨row, hrow, hrowType ▸ htype, fun _ => ⟨e, he, heq.symm⟩⟩
    rcases Subscription.read_cases h hr with ⟨pc, rfl, -, hunfinished, -, -⟩ |
      ⟨persisted, hpc, rfl⟩ |
      ⟨-, -, -, hd⟩ | ⟨_, _, _, -, -, -, -, hd⟩
    · exact fun hpc => absurd hpc hunfinished
    · intro hfinished
      have hterminal : runHasTerminalEvent s.world.db = true := by
        by_contra hnone
        simp [hnone] at hfinished
      obtain ⟨t, ht, htype⟩ := runHasTerminalEvent_iff.mp hterminal
      refine ⟨t, ht, htype, fun hafter => absurd ?_ hcheck⟩
      have hanswers := h.answers
      simp only [EndsUnlisted, Answers, hpc] at hanswers ⊢
      refine ⟨t, ht, htype, hafter, fun hlisted => ?_⟩
      rw [hanswers t hlisted] at htype
      cases htype
    · exact fun hpc => hof (hd.exists_terminal ReaderPc.noConfusion hpc) hpc
    · exact fun hpc => hof (hd.exists_terminal ReaderPc.noConfusion hpc) hpc

/-- A finished reader does not change any more. -/
theorem reader_eq_of_finished (hpc : s.reader.pc = .finished)
    (hrun : StepSystem.run (Subscription.step cfg) s as = some s') : s'.reader = s.reader := by
  have hstep : ∀ m a m', (fun m : Subscription => m.reader = s.reader) m →
      Subscription.step cfg m a = some m' → m'.reader = s.reader := by
    intro m a m' hm hstep
    cases a with
    | env =>
      obtain ⟨w', -, rfl⟩ := Option.map_eq_some_iff.mp hstep
      exact hm
    | read =>
      obtain ⟨r', hr, -⟩ := Option.map_eq_some_iff.mp hstep
      have hfinished : m.reader.pc = .finished := by rw [show m.reader = s.reader from hm, hpc]
      simp [Reader.step, hfinished] at hr
  have hinv := StepSystem.run_invariant hstep rfl hrun
  exact hinv

/-- Rows stay in the log along a run. -/
theorem events_subset_of_run (h : SubscriptionInv cfg afterSeq s)
    (hrun : StepSystem.run (Subscription.step cfg) s as = some s') {e : RunEventResponse}
    (he : e ∈ s.world.db.events) : e ∈ s'.world.db.events := by
  have hstep : ∀ m a m', (SubscriptionInv cfg afterSeq m ∧ e ∈ m.world.db.events) →
      Subscription.step cfg m a = some m' →
        SubscriptionInv cfg afterSeq m' ∧ e ∈ m'.world.db.events := by
    intro m a m' ⟨hm, hmem⟩ hstep
    refine ⟨hm.step hstep, ?_⟩
    cases a with
    | env =>
      obtain ⟨w', hw, rfl⟩ := Option.map_eq_some_iff.mp hstep
      exact World.events_subset_of_step hm.world hw hmem
    | read =>
      obtain ⟨r', -, rfl⟩ := Option.map_eq_some_iff.mp hstep
      exact hmem
  exact (StepSystem.run_invariant hstep ⟨h, he⟩ hrun).2

/-- **The end of a stream.** In every interleaving, a stream that is over contains the terminal
event of the run exactly if no check found one that its iteration had not listed. -/
theorem endsWithTerminal_iff
    (hrun : StepSystem.run (Subscription.step cfg) (.open World.init afterSeq) as = some s) :
    EndsWithTerminal afterSeq s ↔
      StepSystem.Along (Subscription.step cfg) (fun s a => ¬EndsUnlisted afterSeq s a)
        (.open World.init afterSeq) as := by
  have hworld : WorldInv cfg World.init := worldInv_init
  have hinit := subscriptionInv_open hworld afterSeq
  constructor
  · intro hends
    refine (StepSystem.along_iff_forall_split hrun).mpr fun as₁ a as₂ m hsplit hrun₁ hcheck => ?_
    rw [hsplit] at hrun
    obtain ⟨m', hrun₁', hrest⟩ := StepSystem.run_append.mp hrun
    obtain rfl : m = m' := Option.eq_some_unique hrun₁ hrun₁'
    obtain ⟨n, hstep, hrun₂⟩ := StepSystem.run_cons_iff.mp hrest
    have hm := subscriptionInv_of_run worldInv_init hrun₁
    cases a with
    | env => exact hcheck
    | read =>
      unfold EndsUnlisted at hcheck
      cases hpc : m.reader.pc with
      | terminalCheck =>
        rw [hpc] at hcheck
        obtain ⟨t, ht, htype, hafter, -⟩ := hcheck
        -- the check succeeds, and the reader stays as it is
        obtain ⟨r', hr, rfl⟩ := Option.map_eq_some_iff.mp hstep
        have hterminal : runHasTerminalEvent m.world.db = true :=
          runHasTerminalEvent_iff.mpr ⟨t, ht, htype⟩
        have hr' : r' = { m.reader with pc := .finished } := by
          simpa [Reader.step, hpc, hterminal] using hr.symm
        have hfrozen := reader_eq_of_finished (by rw [hr']) hrun₂
        have hfinished : s.reader.pc = .finished := by rw [hfrozen, hr']
        obtain ⟨t', ht', htype', hyielded⟩ := hends hfinished
        have hn := hm.step hstep
        have hs := subscriptionInv_of_run worldInv_init hrun
        obtain rfl : t' = t := hs.world.terminal_unique ht'
          (events_subset_of_run hn hrun₂ ht) htype' htype
        obtain ⟨e, he, heq⟩ := hyielded hafter
        rw [hfrozen, hr'] at he
        have hetype : e.type = t'.type := congrArg RunEvent.type heq
        have hpc' := (hm.terminal e he (hetype ▸ htype')).1
        rw [hpc] at hpc'
        cases hpc'
      | _ => rw [hpc] at hcheck; exact hcheck
  · intro halong
    have hstep : ∀ m a m', (SubscriptionInv cfg afterSeq m ∧ EndsWithTerminal afterSeq m) →
        ¬EndsUnlisted afterSeq m a → Subscription.step cfg m a = some m' →
          SubscriptionInv cfg afterSeq m' ∧ EndsWithTerminal afterSeq m' :=
      fun m a m' hm hcheck hstep =>
        ⟨hm.1.step hstep, endsWithTerminal_step hm.1 hm.2 hcheck hstep⟩
    exact (StepSystem.run_invariant_along hstep ⟨hinit, fun hpc => ReaderPc.noConfusion hpc⟩
      halong hrun).2

/-- A client opens the stream of a queued run; the run is cancelled after the reader's first
iteration has listed the rows and before it asks for a terminal event. -/
def cancelledBehindReader : List SubscriptionAction :=
  [.read true, .read true, .read true, .env (.cancelOwnedRun 1), .read true]

/-- The stream of `cancelledBehindReader` ends without the terminal event. -/
theorem cancelledBehindReader_misses_terminal :
    ∃ s, StepSystem.run (Subscription.step Settings.default) (.open World.init 0)
        cancelledBehindReader = some s ∧
      s.world.db.events.map (fun e => (e.seq, e.type)) = [(1, .runCancelled)] ∧
      s.reader.pc = .finished ∧ s.reader.yielded = [] ∧ ¬EndsWithTerminal 0 s :=
  StepSystem.exists_run (by decide +kernel)

/-- The same client when the cancellation comes before the next listing. -/
def cancelledBeforeListing : List SubscriptionAction :=
  [.read true, .read true, .read true, .read true, .env (.cancelOwnedRun 1), .read true,
    .read true, .read true]

theorem cancelledBeforeListing_endsWithTerminal :
    ∃ s, StepSystem.run (Subscription.step Settings.default) (.open World.init 0)
        cancelledBeforeListing = some s ∧
      s.reader.pc = .finished ∧ EndsWithTerminal 0 s := by
  obtain ⟨s, hrun, hpc⟩ : ∃ s, StepSystem.run (Subscription.step Settings.default)
      (.open World.init 0) cancelledBeforeListing = some s ∧ s.reader.pc = .finished :=
    StepSystem.exists_run (by decide +kernel)
  exact ⟨s, hrun, hpc, (endsWithTerminal_iff hrun).mpr (by decide +kernel)⟩

end IChat
