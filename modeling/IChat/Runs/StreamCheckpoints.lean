import IChat.Runs.Subscription

/-!
# Does the fallback reproduce the checkpoint?

A reader that cannot reach Redis has the rows and the draft. `MatchesCheckpoint` says of a call that
reads a draft that, once its iteration is over, the client has been given exactly the texts of that
draft.

The reader never needs the snapshot for this: with an empty answer of the stream, the draft always
retains an event above a cursor that lies below it. So it depends on what the draft retains and on
where the cursor stands, and three things can go wrong: the draft no longer retains a delta the
reader has not seen (`ReadsTrimmed`); a row moved the cursor past a delta that was not checkpointed
yet (`PassesUncheckpointed`); the terminal event ends the loop before the deltas of the draft
(`EndsBelowDraft`).

`matchesCheckpoint_of_along`: nothing else can.
-/

namespace IChat

variable {cfg : Settings} {s s' : Subscription} {w' : World} {r' : Reader} {n : ℕ}
  {as : List SubscriptionAction}

/-- If the call reads a draft, the texts yielded at the end of its iteration are those of the
draft. -/
def MatchesCheckpoint (cfg : Settings) (s : Subscription) (a : SubscriptionAction) : Prop :=
  ∀ redisOk persisted streamed, a = .read redisOk → s.reader.pc = .readDraft persisted streamed →
    ∀ d ∈ s.world.db.draft, ∀ s' ∈ s.step cfg a, ∀ c,
      channelText c (s'.reader.yielded.map RunEventResponse.toRunEvent) = d.channel c

/-- A row that was listed lies above a delta that is above the cursor and not in the draft, and the
loop will not end with this iteration. -/
def PassesUncheckpointed (s : Subscription) (persisted : List RunEventResponse) : Prop :=
  (∀ row ∈ persisted, row.type.isTerminal = false) ∧
    ∃ row ∈ persisted, ∃ e ∈ s.world.worker.emitted, e.carriesText = true ∧
      s.reader.cursor < e.seq ∧ e.seq ≤ row.seq ∧ ∀ d ∈ s.world.db.draft, d.seq < e.seq

/-- The draft contains the text of a delta above the cursor that it no longer retains. -/
def ReadsTrimmed (s : Subscription) : Prop :=
  ∃ d ∈ s.world.db.draft, ∃ e ∈ s.world.worker.emitted, e.carriesText = true ∧
    s.reader.cursor < e.seq ∧ e.seq ≤ d.seq ∧
      e ∉ retainedAfter s.world.db.draft s.reader.cursor

/-- The terminal event was listed and does not lie above the draft. -/
def EndsBelowDraft (s : Subscription) (persisted : List RunEventResponse) : Prop :=
  ∃ d ∈ s.world.db.draft, ∃ t ∈ persisted, t.type.isTerminal = true ∧ t.seq ≤ d.seq

/-- The call makes what was yielded differ from a draft. -/
def LosesCheckpoint (s : Subscription) : SubscriptionAction → Prop
  | .read _ =>
    match s.reader.pc with
    | .readDraft persisted _ =>
      PassesUncheckpointed s persisted ∨ ReadsTrimmed s ∨ EndsBelowDraft s persisted
    | _ => False
  | .env _ => False

section Decidable

instance (s : Subscription) (persisted : List RunEventResponse) :
    Decidable (PassesUncheckpointed s persisted) :=
  inferInstanceAs (Decidable ((∀ row ∈ persisted, _) ∧
    ∃ row ∈ persisted, ∃ e ∈ s.world.worker.emitted, _))

instance (s : Subscription) : Decidable (ReadsTrimmed s) :=
  inferInstanceAs (Decidable (∃ d ∈ s.world.db.draft, ∃ e ∈ s.world.worker.emitted, _))

instance (s : Subscription) (persisted : List RunEventResponse) :
    Decidable (EndsBelowDraft s persisted) :=
  inferInstanceAs (Decidable (∃ d ∈ s.world.db.draft, ∃ t ∈ persisted, _))

instance (s : Subscription) (a : SubscriptionAction) : Decidable (LosesCheckpoint s a) := by
  induction a using SubscriptionAction.casesOn with
  | env => exact isFalse id
  | read =>
    dsimp only [LosesCheckpoint]
    generalize s.reader.pc = pc
    induction pc using ReaderPc.casesOn <;> infer_instance

end Decidable

/-- The invariant of a reader without Redis: it has yielded the deltas up to a number `n` that an
earlier draft had, it is not past any other, and drafts only grow. -/
structure CheckpointsInv (cfg : Settings) (n : ℕ) (s : Subscription) : Prop where
  base : SubscriptionInv cfg 0 s
  offline : ∀ persisted streamed, s.reader.pc = .readDraft persisted streamed → streamed = []
  texts : textEvents (s.reader.yielded.map RunEventResponse.toRunEvent) =
    (textEvents s.world.worker.emitted).filter fun e => e.seq ≤ n
  le_cursor : s.reader.pc ≠ .finished → n ≤ s.reader.cursor
  passed : s.reader.pc ≠ .finished → ∀ e ∈ s.world.worker.emitted, e.carriesText = true →
    e.seq ≤ s.reader.cursor → e.seq ≤ n
  checkpointed : n = 0 ∨ ∃ e ∈ s.world.worker.accepted, e.carriesText = true ∧ e.seq = n
  draft : ∀ d ∈ s.world.db.draft, n ≤ d.seq

/-! ### Drafts -/

/-- A draft above the cursor retains an event above it. -/
theorem WorldInv.exists_retainedAfter {w : World} (h : WorldInv cfg w) {d : RunDraft}
    (hd : d ∈ w.db.draft) {cursor : ℕ} (hlt : cursor < d.seq) :
    ∃ e, e ∈ retainedAfter w.db.draft cursor := by
  obtain ⟨l, hl⟩ := h.draft_retains hd
  obtain ⟨last, hlast, hseq⟩ := hl.last
  have hdecoded := draftEventsAfter_map_toDict cursor d.updatedAt l
  rw [← hl.events] at hdecoded
  rw [(h.retainedAfter_spec hd hdecoded).1]
  refine ⟨last, List.mem_map.mpr ⟨⟨last, d.updatedAt⟩, List.mem_map.mpr ⟨last, ?_, rfl⟩, rfl⟩⟩
  exact List.mem_filter.mpr ⟨List.mem_of_getLast? hlast, by simpa [hseq] using hlt⟩

/-! ### The steps of the others -/

/-- What was checkpointed lies at or below the latest number. -/
theorem CheckpointsInv.le_latestSeq (h : CheckpointsInv cfg n s) :
    n ≤ s.world.worker.latestSeq := by
  rcases h.checkpointed with hzero | ⟨e, he, -, hseq⟩
  · omega
  · have hle := (h.base.world.seq_bounds (h.base.world.accepted.subset he)).2
    omega

/-- The steps of the others keep the invariant. -/
theorem CheckpointsInv.env {a : Action} (h : CheckpointsInv cfg n s)
    (hstep : s.world.step cfg a = some w') : CheckpointsInv cfg n { s with world := w' } := by
  have hbase := h.base.env hstep
  have haccepted := World.accepted_isPrefix_of_step hstep
  have hcheckpointed : n = 0 ∨ ∃ e ∈ w'.worker.accepted, e.carriesText = true ∧ e.seq = n :=
    h.checkpointed.imp_right fun ⟨e, he, htext⟩ => ⟨e, haccepted.subset he, htext⟩
  have hdraft : ∀ d ∈ w'.db.draft, n ≤ d.seq := by
    intro d hd
    rcases World.step_draft h.base.world hstep hd with hold | hnew
    · exact h.draft d hold
    · obtain ⟨last, hlast, hseq⟩ := hnew.seq
      rcases hcheckpointed with hzero | ⟨e, he, htext, hen⟩
      · omega
      · have hascending : SeqLog.Ascending RunEvent.seq (textEvents w'.worker.accepted) :=
          (hbase.world.emitted_ascending.sublist hbase.world.accepted.sublist).filter _
        have hle := hascending.key_le_of_getLast? (List.mem_filter.mpr ⟨he, htext⟩) hlast
        omega
  rcases World.step_emitted hstep with hsame | ⟨e, event, rfl, hphase, he, -, hemitted⟩
  · refine ⟨hbase, h.offline, ?_, h.le_cursor, ?_, hcheckpointed, hdraft⟩
    · show _ = (textEvents w'.worker.emitted).filter _
      rw [hsame]
      exact h.texts
    · show _ → ∀ e ∈ w'.worker.emitted, _
      rw [hsame]
      exact h.passed
  · have hseq : e.seq = s.world.worker.latestSeq + 1 := toRunEvent_seq he
    have hprepared : s.world.worker.phase.isPrepared = true := by rw [hphase]; rfl
    have hle := h.le_latestSeq
    refine ⟨hbase, h.offline, ?_, h.le_cursor, fun hunfinished => ?_, hcheckpointed, hdraft⟩
    · show _ = (textEvents w'.worker.emitted).filter _
      have hnil : (textEvents [e.toRunEvent]).filter (fun e => e.seq ≤ n) = [] := by
        refine List.filter_eq_nil_iff.mpr fun e' he' => ?_
        rw [List.mem_singleton.mp (List.mem_filter.mp he').1]
        have hlt : n < e.seq := by omega
        simpa using hlt
      rw [hemitted, textEvents_append, List.filter_append, hnil, List.append_nil]
      exact h.texts
    · intro e' he' htext hcursor
      rw [show w'.worker.emitted = _ from hemitted] at he'
      rcases List.mem_append.mp he' with hold | hnew
      · exact h.passed hunfinished e' hold htext hcursor
      · -- the new event lies above the cursor
        have hbound := h.base.cursor_le_latestSeq hprepared
          (h.base.not_terminal_of_unfinished hunfinished)
        rw [List.mem_singleton.mp hnew] at hcursor ⊢
        have hcursor' : e.seq ≤ s.reader.cursor := hcursor
        omega

/-! ### The merge -/

/-- What the merge without Redis delivers: of a draft above the cursor, exactly the deltas between
the two. -/
theorem CheckpointsInv.merge_texts {persisted checkpointEvents : List RunEventResponse}
    (h : CheckpointsInv cfg n s) (htrimmed : ¬ReadsTrimmed s)
    (hbelow : ¬EndsBelowDraft s persisted)
    (hrows : RowsAbove s.world s.reader.cursor persisted)
    (hcheckpoint : Reader.CheckpointEvents s.reader [] s.world.db.draft checkpointEvents) :
    let batch := Reader.mergeEvents [] checkpointEvents persisted
    SeqLog.Ascending (fun e : RunEventResponse => e.seq) batch ∧
      (∀ y ∈ batch, y.carriesText = true → y.toRunEvent ∈ s.world.worker.emitted ∧
        ∃ d ∈ s.world.db.draft, y.seq ≤ d.seq) ∧
      ∀ d ∈ s.world.db.draft, ∀ e ∈ s.world.worker.emitted, e.carriesText = true →
        s.reader.cursor < e.seq → e.seq ≤ d.seq →
          ∃ y ∈ Reader.throughTerminal batch, y.toRunEvent = e := by
  intro batch
  have hw := h.base.world
  have hnil : (([] : List RunEventResponse).map fun e => e.seq).Nodup := List.nodup_nil
  have hmem : ∀ y, y ∈ batch ↔ y ∈ persisted ∨
      (∀ row ∈ persisted, row.seq ≠ y.seq) ∧ (y ∈ [] ∨ y ∈ checkpointEvents) :=
    fun y => Reader.mem_mergeEvents hnil hrows.nodup
  -- the draft retains something above the cursor, so its snapshot is not used
  have hrepeat : ¬(s.reader.checkpointBaselineKnown = true ∧ ∃ d ∈ s.world.db.draft,
      s.reader.cursor < d.seq ∧ ∀ e ∈ retainedAfter s.world.db.draft s.reader.cursor,
        e.seq ∈ ([] : List RunEventResponse).map fun e => e.seq) := by
    rintro ⟨-, d, hd, hlt, hcovered⟩
    obtain ⟨e, he⟩ := hw.exists_retainedAfter hd hlt
    exact absurd (hcovered e he) List.not_mem_nil
  obtain ⟨hnodup, hnew, hemitted, hretained⟩ := hw.checkpointEvents_spec hcheckpoint hrepeat
  have hascending : SeqLog.Ascending (fun e : RunEventResponse => e.seq) batch :=
    Reader.ascending_mergeEvents hnil hrows.nodup hnodup hnew
  refine ⟨hascending, fun y hy htext => ?_, fun d hd e he htext hlt hle => ?_⟩
  · rcases (hmem y).mp hy with hrow | ⟨-, hstreamed | hdraft⟩
    · have hdelta := RunEvent.isDelta_of_carriesText htext
      rw [hw.isDelta_eq_false_of_row (hrows.mem y hrow)] at hdelta
      cases hdelta
    · cases hstreamed
    · obtain ⟨-, -, -, d, hd, hle⟩ := hcheckpoint.spec hw hdraft
      exact ⟨hemitted y hdraft, d, hd, hle⟩
  · have hkept : e ∈ retainedAfter s.world.db.draft s.reader.cursor := by
      by_contra hgone
      exact htrimmed ⟨d, hd, e, he, htext, hlt, hle, hgone⟩
    have hterminal : ∀ t ∈ persisted, t.type.isTerminal = true → e.seq < t.seq := by
      intro t ht htype
      by_contra hge
      exact hbelow ⟨d, hd, t, ht, htype, by omega⟩
    obtain ⟨y, hy, rfl⟩ := hretained e hkept List.not_mem_nil
    have hfree : ∀ row ∈ persisted, row.seq ≠ y.seq := fun row hrow =>
      hw.row_seq_ne (hrows.mem row hrow) he htext (hterminal row hrow)
    have hybatch : y ∈ batch := (hmem y).mpr (.inr ⟨hfree, .inr hy⟩)
    refine ⟨y, ?_, rfl⟩
    rcases SeqLog.mem_takeThrough_or (p := fun e => e.type.isTerminal) hascending hybatch with
      hthrough | ⟨t, ht, htype, hbefore⟩
    · exact hthrough
    · -- a terminal event in the batch is a row, and lies above the draft
      have hlisted : t ∈ persisted := by
        rcases (hmem t).mp (SeqLog.mem_of_mem_takeThrough ht) with hrow | ⟨-, hstreamed | hdraft⟩
        · exact hrow
        · cases hstreamed
        · have hdelta := (hcheckpoint.spec hw hdraft).2.1
          rw [RunEventType.isDelta_eq_false_of_isTerminal htype] at hdelta
          cases hdelta
      have hbefore' : t.seq < y.seq := hbefore
      have habove : y.seq < t.seq := hterminal t hlisted htype
      omega

/-- The number up to which the deltas are yielded after an iteration. -/
def checkpointedSeq (draft : Option RunDraft) (n : ℕ) : ℕ := (draft.map fun d => d.seq).getD n

/-- **The merge without Redis.** After it, the deltas up to the number of the draft are yielded. -/
theorem CheckpointsInv.merge {redisOk : Bool} {persisted checkpointEvents : List RunEventResponse}
    (h : CheckpointsInv cfg n s) (hloses : ¬LosesCheckpoint s (.read redisOk))
    (hpc : s.reader.pc = .readDraft persisted [])
    (hinv : SubscriptionInv cfg 0 { s with reader := r' })
    (hrows : RowsAbove s.world s.reader.cursor persisted)
    (hcheckpoint : Reader.CheckpointEvents s.reader [] s.world.db.draft checkpointEvents)
    (hd : s.reader.Delivers r' (.terminalCheck persisted)
      (Reader.mergeEvents [] checkpointEvents persisted)
      ((s.world.db.draft.map fun d => d.seq).getD 0)) :
    CheckpointsInv cfg (checkpointedSeq s.world.db.draft n) { s with reader := r' } := by
  have hw := h.base.world
  simp only [LosesCheckpoint, hpc, not_or] at hloses
  obtain ⟨hpasses, htrimmed, hbelow⟩ := hloses
  have hunfinished : s.reader.pc ≠ .finished := by rw [hpc]; exact ReaderPc.noConfusion
  obtain ⟨hascending, hbatch, hall⟩ := h.merge_texts htrimmed hbelow hrows hcheckpoint
  have habove : ∀ e ∈ Reader.mergeEvents [] checkpointEvents persisted,
      s.reader.cursor < e.seq := (batch_mergeEvents hw hrows .nil hcheckpoint).above
  have hn : n ≤ checkpointedSeq s.world.db.draft n := by
    unfold checkpointedSeq
    cases hdraft : s.world.db.draft with
    | none => exact le_rfl
    | some d => exact h.draft d hdraft
  have hseq : ∀ d ∈ s.world.db.draft, checkpointedSeq s.world.db.draft n = d.seq := by
    intro d hdraft
    rw [checkpointedSeq, Option.mem_def.mp hdraft]
    rfl
  -- when the iteration goes on, no terminal event was listed
  have hnone : r'.pc ≠ .finished → ∀ e ∈ Reader.mergeEvents [] checkpointEvents persisted,
      e.type.isTerminal = false := by
    intro hopen e he
    by_contra htype
    have hany : (Reader.mergeEvents [] checkpointEvents persisted).any
        (fun e => e.type.isTerminal) = true :=
      List.any_eq_true.mpr ⟨e, he, by simpa using htype⟩
    exact hopen (hd.pc.trans (if_pos hany))
  refine ⟨hinv, ?_, ?_, fun hopen => ?_, ?_, ?_, fun d hdraft => (hseq d hdraft).le⟩
  · intro _ _ hpc'
    rw [show r'.pc = _ from hd.pc] at hpc'
    split at hpc' <;> cases hpc'
  · refine h.base.textEvents_delivers hascending habove hd h.texts
      (fun e he htext => (hbatch e he htext).1) fun e he htext => ?_
    simp only [decide_eq_true_eq]
    constructor
    · intro hle
      rcases Nat.lt_or_ge s.reader.cursor e.seq with hlt | hge
      · -- above the cursor there is a draft, since `n` is not
        cases hdraft : s.world.db.draft with
        | none =>
          rw [checkpointedSeq, hdraft] at hle
          have hcursor := h.le_cursor hunfinished
          simp only [Option.map_none, Option.getD_none] at hle
          omega
        | some d =>
          exact .inr (hall d hdraft e he htext hlt (hseq d hdraft ▸ hle))
      · exact .inl (h.passed hunfinished e he htext hge)
    · rintro (hle | ⟨y, hy, rfl⟩)
      · exact hle.trans hn
      · obtain ⟨-, d, hdraft, hle⟩ := hbatch y (SeqLog.mem_of_mem_takeThrough hy) htext
        exact hseq d hdraft ▸ hle
  · show checkpointedSeq s.world.db.draft n ≤ r'.cursor
    cases hdraft : s.world.db.draft with
    | none => exact (h.le_cursor hunfinished).trans hd.cursor_le
    | some =>
      have htop := hd.top_le (hnone hopen)
      rwa [hdraft] at htop
  · intro hopen e he htext hle
    rcases Nat.lt_or_ge s.reader.cursor e.seq with hlt | hge
    · have hlisted : ∀ row ∈ persisted, row.type.isTerminal = false := fun row hrow =>
        hnone hopen row (mem_mergeEvents_of_row hrows .nil hrow)
      by_contra hgt
      rcases hd.le_answers hw hrows .nil hcheckpoint hlt hle with
        ⟨row, hrow, hle'⟩ | ⟨d, hdraft, hle'⟩
      · rw [List.append_nil] at hrow
        refine hpasses ⟨hlisted, row, hrow, e, he, htext, hlt, hle', fun d hdraft => ?_⟩
        rw [hseq d hdraft] at hgt
        omega
      · rw [hseq d hdraft] at hgt
        omega
    · exact (h.passed hunfinished e he htext hge).trans hn
  · cases hdraft : s.world.db.draft with
    | none => exact h.checkpointed
    | some => exact .inr (hw.draft_texts hdraft).2

/-- The calls of the reader keep the invariant, with the number of the draft they read. -/
theorem CheckpointsInv.read (h : CheckpointsInv cfg n s) (hloses : ¬LosesCheckpoint s (.read false))
    (hstep : s.reader.step false s.world.db s.world.stream = some r') :
    ∃ n', CheckpointsInv cfg n' { s with reader := r' } ∧
      (∀ persisted streamed, s.reader.pc = .readDraft persisted streamed →
        n' = checkpointedSeq s.world.db.draft n) := by
  have hinv := h.base.read hstep
  have hunfinished : s.reader.pc ≠ .finished := by
    intro hpc
    simp [Reader.step, hpc] at hstep
  rcases Subscription.read_cases h.base hstep with ⟨pc, rfl, -, -, hoffline, hsource⟩ |
    ⟨persisted, hpc, rfl⟩ | ⟨-, hredis, -⟩ | ⟨persisted, streamed, checkpointEvents, hpc, hrows,
      hentries, hcheckpoint, hd⟩
  · refine ⟨n, ⟨hinv, fun _ _ hpc => ?_, h.texts, fun _ => h.le_cursor hunfinished,
      fun _ => h.passed hunfinished, h.checkpointed, h.draft⟩,
      fun _ _ hpc => absurd hpc (hsource _ _)⟩
    exact (hoffline _ _ hpc).resolve_left (by decide)
  · refine ⟨n, ⟨hinv, fun _ _ hpc' => ?_, h.texts, fun _ => h.le_cursor hunfinished,
      fun _ => h.passed hunfinished, h.checkpointed, h.draft⟩, fun _ _ hpc' => ?_⟩
    · split at hpc' <;> cases hpc'
    · rw [hpc] at hpc'
      cases hpc'
  · cases hredis
  · obtain rfl := h.offline _ _ hpc
    exact ⟨_, h.merge hloses hpc hinv hrows hcheckpoint hd, fun _ _ _ => rfl⟩

/-! ### Whole runs -/

/-- The step is not a call that reaches Redis. -/
def Offline (a : SubscriptionAction) : Prop := a ≠ .read true

instance (a : SubscriptionAction) : Decidable (Offline a) := by
  cases a with
  | env => exact isTrue SubscriptionAction.noConfusion
  | read redisOk =>
    cases redisOk with
    | true => exact isFalse fun h => h rfl
    | false => exact isTrue fun h => by cases h

/-- **Step lemma.** -/
theorem CheckpointsInv.step {a : SubscriptionAction} (h : CheckpointsInv cfg n s)
    (hoffline : Offline a) (hloses : ¬LosesCheckpoint s a) (hstep : s.step cfg a = some s') :
    ∃ n', CheckpointsInv cfg n' s' := by
  cases a with
  | env =>
    obtain ⟨w', hw, rfl⟩ := Option.map_eq_some_iff.mp hstep
    exact ⟨n, h.env hw⟩
  | read redisOk =>
    cases redisOk with
    | true => exact absurd rfl hoffline
    | false =>
      obtain ⟨r', hr, rfl⟩ := Option.map_eq_some_iff.mp hstep
      obtain ⟨n', hinv, -⟩ := h.read hloses hr
      exact ⟨n', hinv⟩

/-- A call that reads a draft ends its iteration with the texts of the draft. -/
theorem CheckpointsInv.matchesCheckpoint {a : SubscriptionAction} (h : CheckpointsInv cfg n s)
    (hoffline : Offline a) (hloses : ¬LosesCheckpoint s a) : MatchesCheckpoint cfg s a := by
  rintro redisOk persisted streamed rfl hpc d hd s' hstep c
  cases redisOk with
  | true => exact absurd rfl hoffline
  | false =>
    obtain ⟨r', hr, rfl⟩ := Option.map_eq_some_iff.mp hstep
    obtain ⟨n', hinv, hn'⟩ := h.read hloses hr
    have hseq : n' = d.seq := by
      rw [hn' persisted streamed hpc, checkpointedSeq, Option.mem_def.mp hd]
      rfl
    rw [(h.base.world.draft_texts hd).1 c, ← hseq, ← show _ = _ from hinv.texts, textEvents,
      channelText_filter_carriesText]

/-- **The fallback reproduces the checkpoint**, in every run that a client follows from the start
without Redis and in which no call loses a delta of a draft. -/
theorem matchesCheckpoint_of_along
    (halong : StepSystem.Along (Subscription.step cfg)
      (fun s a => Offline a ∧ ¬LosesCheckpoint s a) (.open World.init 0) as) :
    StepSystem.Along (Subscription.step cfg) (MatchesCheckpoint cfg) (.open World.init 0) as := by
  have hinit : ∃ n, CheckpointsInv cfg n (.open World.init 0) :=
    ⟨0, {
      base := subscriptionInv_open worldInv_init 0
      offline := fun _ _ hpc => ReaderPc.noConfusion hpc
      texts := rfl
      le_cursor := fun _ => le_rfl
      passed := fun _ e he => by cases he
      checkpointed := .inl rfl
      draft := fun d hd => by cases hd }⟩
  have hstep : ∀ s a s', (∃ n, CheckpointsInv cfg n s) → (Offline a ∧ ¬LosesCheckpoint s a) →
      s.step cfg a = some s' → ∃ n, CheckpointsInv cfg n s' := by
    rintro s a s' ⟨n, h⟩ ⟨hoffline, hloses⟩ hnext
    exact h.step hoffline hloses hnext
  have hmatches : ∀ s a, (∃ n, CheckpointsInv cfg n s) → (Offline a ∧ ¬LosesCheckpoint s a) →
      MatchesCheckpoint cfg s a := by
    rintro s a ⟨n, h⟩ ⟨hoffline, hloses⟩
    exact h.matchesCheckpoint hoffline hloses
  exact StepSystem.along_of_invariant hstep hmatches hinit halong

/-- Settings under which a draft retains one event. -/
def Settings.oneRetained : Settings where
  runStreamMaxlen := 1
  draftCheckpointIntervalSeconds := 3
  draftCheckpointMaxPendingChars := 4096
  runStreamMaxlen_pos := Nat.one_pos
  draftCheckpointMaxPendingChars_pos := Settings.default.draftCheckpointMaxPendingChars_pos
  toolBackendNames := []

/-- The worker emits two deltas and then stores its draft. -/
def emitTwice : List SubscriptionAction :=
  [.env (.claim "worker-1" 30 0), .env (.prepare none), .env (.listPersisted true),
    .env (.publishPersisted true), .env .startStreaming,
    .env (.emit (.textDelta "Hel")), .env (.redisSink false 1), .env (.postgresSink true 1),
    .env (.draftSink true 1),
    .env (.emit (.textDelta "lo")), .env (.redisSink false 2), .env (.postgresSink true 2),
    .env (.draftSink true 2), .env (.draftTimer true 3)]

/-- A client whose reader cannot reach Redis opens the stream and reads up to the draft. -/
def readDraftOffline : List SubscriptionAction := [.read false, .read false]

/-- With one event retained, the client is given the end of the draft's text only. -/
theorem readDraftOffline_trimmed :
    ∃ s, StepSystem.run (Subscription.step Settings.oneRetained) (.open World.init 0)
        (emitTwice ++ readDraftOffline) = some s ∧
      (∃ d ∈ s.world.db.draft, d.text = "Hello") ∧
      (∀ s' ∈ s.step Settings.oneRetained (.read false),
        channelText .text (s'.reader.yielded.map RunEventResponse.toRunEvent) = "lo") ∧
      ¬MatchesCheckpoint Settings.oneRetained s (.read false) := by
  obtain ⟨s, hrun, hpc, ⟨d, hd, htext⟩, hread⟩ : ∃ s,
      StepSystem.run (Subscription.step Settings.oneRetained) (.open World.init 0)
        (emitTwice ++ readDraftOffline) = some s ∧
      s.reader.pc = .readDraft (listRunEventsAfter s.world.db 0) [] ∧
        (∃ d ∈ s.world.db.draft, d.text = "Hello") ∧
      ∃ s' ∈ s.step Settings.oneRetained (.read false),
        channelText .text (s'.reader.yielded.map RunEventResponse.toRunEvent) = "lo" :=
    StepSystem.exists_run (by decide +kernel)
  obtain ⟨s', hs', hlo⟩ := hread
  refine ⟨s, hrun, ⟨d, hd, htext⟩, ?_, fun hmatches => ?_⟩
  · intro t ht
    rwa [← Option.eq_some_unique (Option.mem_def.mp hs') (Option.mem_def.mp ht)]
  · have hwhole := hmatches false _ [] rfl hpc d hd s' hs' .text
    rw [hlo, show d.channel .text = d.text from rfl, htext] at hwhole
    exact absurd hwhole (by decide)

/-- With the default settings the draft retains both deltas, and the client is given both. -/
theorem readDraftOffline_matches :
    StepSystem.Along (Subscription.step Settings.default) (MatchesCheckpoint Settings.default)
      (.open World.init 0) (emitTwice ++ readDraftOffline ++ [.read false]) :=
  matchesCheckpoint_of_along (by decide +kernel)

end IChat
