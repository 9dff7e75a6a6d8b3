import IChat.Runs.Streaming
import IChat.Runs.WorldSteps

/-!
# A client that follows a run

`Subscription` puts one reader of the event stream next to the run and its actors. Its steps are
the steps of the world (`env`) and the calls of the reader (`read`), in any order; the reader may
be arbitrarily slow, so a client that connects late is an interleaving in which its first call
comes late.

`SubscriptionInv` is what holds of a reader whatever the interleaving: its cursor is the number it
started from or that of an event of the run, what it has yielded lies between the two in the order
of the numbers, and a terminal event is the last thing it yields. `Subscription.read_cases` says
what one call can do; the theorems about delivery are read off it.
-/

namespace IChat

/-- One run with its actors, and one reader. -/
structure Subscription where
  world : World
  reader : Reader
  deriving DecidableEq

/-- A step of somebody else, or a call of the reader. -/
inductive SubscriptionAction where
  | env (action : Action)
  | read (redisOk : Bool)

/-- A client connects. -/
def Subscription.open (w : World) (afterSeq : ℕ) : Subscription := ⟨w, .start afterSeq⟩

/-- One step. -/
def Subscription.step (cfg : Settings) (s : Subscription) : SubscriptionAction → Option Subscription
  | .env action => (s.world.step cfg action).map fun w => { s with world := w }
  | .read redisOk =>
    (s.reader.step redisOk s.world.db s.world.stream).map fun r => { s with reader := r }

/-- An event of the run: emitted by the worker, or in the log. -/
def World.Knows (w : World) (e : RunEvent) : Prop :=
  e ∈ w.worker.emitted ∨ ∃ row ∈ w.db.events, row.toRunEvent = e

/-- What a reader may yield: an event of the run, or a delta made from the draft, which has the
number of an emitted event that carries text. -/
def World.Backs (w : World) (e : RunEvent) : Prop :=
  w.Knows e ∨ e.type.isDelta = true ∧
    ∃ e' ∈ w.worker.emitted, e'.carriesText = true ∧ e'.seq = e.seq

variable {cfg : Settings} {afterSeq : ℕ} {s s' : Subscription} {w w' : World} {r r' : Reader}

/-! ### What the world provides -/

/-- What was emitted stays emitted. -/
theorem World.emitted_subset_of_step {a : Action} (hstep : w.step cfg a = some w') {e : RunEvent}
    (he : e ∈ w.worker.emitted) : e ∈ w'.worker.emitted := by
  rcases World.step_emitted hstep with hsame | ⟨_, _, -, -, -, -, happend⟩
  · rwa [hsame]
  · rw [happend]
    exact List.mem_append_left _ he

theorem World.Knows.step {a : Action} {e : RunEvent} (he : w.Knows e) (h : WorldInv cfg w)
    (hstep : w.step cfg a = some w') : w'.Knows e := by
  rcases he with he | ⟨row, hrow, heq⟩
  · exact .inl (World.emitted_subset_of_step hstep he)
  · exact .inr ⟨row, World.events_subset_of_step h hstep hrow, heq⟩

theorem World.Backs.step {a : Action} {e : RunEvent} (he : w.Backs e) (h : WorldInv cfg w)
    (hstep : w.step cfg a = some w') : w'.Backs e :=
  he.imp (fun hknown => hknown.step h hstep) fun ⟨hdelta, e', he', htext⟩ =>
    ⟨hdelta, e', World.emitted_subset_of_step hstep he', htext⟩

theorem World.Backs.knows_seq {e : RunEvent} (he : w.Backs e) : ∃ e', w.Knows e' ∧ e'.seq = e.seq :=
  he.elim (fun hknown => ⟨e, hknown, rfl⟩) fun ⟨_, e', he', _, hseq⟩ => ⟨e', .inl he', hseq⟩

/-- No row of the log is a delta. -/
theorem WorldInv.isDelta_eq_false_of_row (h : WorldInv cfg w) {row : RunEventResponse}
    (hrow : row ∈ w.db.events) : row.type.isDelta = false := by
  rcases h.rowsOrigin row hrow with hstarted | hterminal | ⟨hdelta, -⟩
  · rw [hstarted]
    rfl
  · exact RunEventType.isDelta_eq_false_of_isTerminal hterminal
  · exact hdelta

/-- A run has at most one terminal event. -/
theorem WorldInv.terminal_unique (h : WorldInv cfg w) {t t' : RunEventResponse}
    (ht : t ∈ w.db.events) (ht' : t' ∈ w.db.events) (htype : t.type.isTerminal = true)
    (htype' : t'.type.isTerminal = true) : t = t' := by
  have hlength : (w.db.events.filter fun e => e.type.isTerminal).length ≤ 1 := by
    have hsafe := congrArg List.length h.safe.terminal
    simp only [terminalTypes, List.filter_map, List.length_map] at hsafe
    have hone : w.db.run.status.terminalEvent.toList.length ≤ 1 := by
      cases w.db.run.status.terminalEvent <;> simp
    exact le_of_eq_of_le hsafe hone
  have hmem : t ∈ w.db.events.filter fun e => e.type.isTerminal :=
    List.mem_filter.mpr ⟨ht, htype⟩
  have hmem' : t' ∈ w.db.events.filter fun e => e.type.isTerminal :=
    List.mem_filter.mpr ⟨ht', htype'⟩
  obtain ⟨x, hx⟩ := List.length_eq_one_iff.mp
    (le_antisymm hlength (List.length_pos_of_mem hmem))
  rw [hx, List.mem_singleton] at hmem hmem'
  rw [hmem, hmem']

/-- A terminal event that is known is a row of the log. -/
theorem WorldInv.row_of_terminal (h : WorldInv cfg w) {e : RunEvent}
    (he : w.Knows e) (htype : e.type.isTerminal = true) :
    ∃ row ∈ w.db.events, row.toRunEvent = e := by
  rcases he with he | hrow
  · have hforwarded := RunEventType.isTerminal_eq_false_of_isForwarded (h.forwarded e he)
    rw [hforwarded] at htype
    cases htype
  · exact hrow

/-- A checkpoint of a prefix of what was emitted holds the texts up to its number, and its number is
that of an event in the prefix. -/
theorem IsCheckpoint.texts {maxEvents : ℕ} {l emitted : List RunEvent} {d : RunDraft}
    (h : IsCheckpoint maxEvents l d) (hl : l <+: emitted)
    (hascending : SeqLog.Ascending RunEvent.seq emitted) :
    (∀ c, d.channel c = channelText c ((textEvents emitted).filter fun e => e.seq ≤ d.seq)) ∧
      ∃ e ∈ l, e.carriesText = true ∧ e.seq = d.seq := by
  obtain ⟨hcut, hlast⟩ := h.textEvents_eq hl hascending
  refine ⟨fun c => ?_, hlast⟩
  rw [← hcut, textEvents, channelText_filter_carriesText]
  exact h.text c

/-- The draft row holds the texts up to its number. -/
theorem WorldInv.draft_texts (h : WorldInv cfg w) {d : RunDraft}
    (hd : d ∈ w.db.draft) :
    (∀ c, d.channel c = channelText c
        ((textEvents w.worker.emitted).filter fun e => e.seq ≤ d.seq)) ∧
      ∃ e ∈ w.worker.accepted, e.carriesText = true ∧ e.seq = d.seq := by
  obtain ⟨l, hl, hcheckpoint⟩ := h.draft d hd
  obtain ⟨htexts, e, he, htext, hseq⟩ :=
    hcheckpoint.texts (hl.trans h.accepted) h.emitted_ascending
  exact ⟨htexts, e, hl.subset he, htext, hseq⟩

/-- The events a draft row retains, as the worker emitted them. -/
structure Retains (w : World) (d : RunDraft) (l : List RunEvent) : Prop where
  events : d.events = l.map RunEvent.toDict
  emitted : ∀ e ∈ l, e ∈ w.worker.emitted
  carriesText : ∀ e ∈ l, e.carriesText = true
  ascending : SeqLog.Ascending RunEvent.seq l
  last : ∃ e, l.getLast? = some e ∧ e.seq = d.seq

/-- The draft row retains events the worker emitted, among them the one that gave it its number. -/
theorem WorldInv.draft_retains (h : WorldInv cfg w) {d : RunDraft} (hd : d ∈ w.db.draft) :
    ∃ l, Retains w d l := by
  obtain ⟨l, hl, hcheckpoint⟩ := h.draft d hd
  have hsub : (textEvents l).Sublist w.worker.emitted :=
    List.filter_sublist.trans (hl.trans h.accepted).sublist
  obtain ⟨last, hlast, hseq⟩ := hcheckpoint.seq
  have hdrop : ((textEvents l).rtake cfg.runStreamMaxlen).Sublist (textEvents l) :=
    List.drop_sublist _ _
  have hrtake : ((textEvents l).rtake cfg.runStreamMaxlen).getLast? = some last := by
    obtain ⟨init, hinit⟩ := List.getLast?_eq_some_iff.mp hlast
    obtain ⟨m, hm⟩ : ∃ m, cfg.runStreamMaxlen = m + 1 :=
      ⟨cfg.runStreamMaxlen - 1, by have := cfg.runStreamMaxlen_pos; omega⟩
    rw [hinit, hm, List.rtake_concat_succ, List.getLast?_concat]
  exact ⟨(textEvents l).rtake cfg.runStreamMaxlen, {
    events := by
      rw [hcheckpoint.events]
      simp [List.rtake]
    emitted := fun e he => (hdrop.trans hsub).subset he
    carriesText := fun e he => (List.mem_filter.mp (hdrop.subset he)).2
    ascending := h.emitted_ascending.sublist (hdrop.trans hsub)
    last := ⟨last, hrtake, hseq.symm⟩ }⟩

/-- A known event with text was emitted. -/
theorem WorldInv.emitted_of_carriesText (h : WorldInv cfg w) {e : RunEvent}
    (hknown : w.Knows e) (htext : e.carriesText = true) : e ∈ w.worker.emitted := by
  rcases hknown with hemitted | ⟨row, hrow, rfl⟩
  · exact hemitted
  · have hdelta := RunEvent.isDelta_of_carriesText htext
    rw [h.isDelta_eq_false_of_row hrow] at hdelta
    cases hdelta

/-- A row has the number of an emitted event with text only if it is a terminal event that is not
above it. -/
theorem WorldInv.row_seq_ne (h : WorldInv cfg w) {row : RunEventResponse}
    (hrow : row ∈ w.db.events) {e : RunEvent} (he : e ∈ w.worker.emitted)
    (htext : e.carriesText = true) (hbelow : row.type.isTerminal = true → e.seq < row.seq) :
    row.seq ≠ e.seq := by
  intro hseq
  rcases h.rowsOrigin row hrow with hstarted | hterminal | ⟨hdelta, hemitted⟩
  · have hprepared : w.worker.phase.isPrepared = true := by
      by_contra hidle
      rw [h.emitted_eq_nil (by simpa using hidle)] at he
      cases he
    have hle := h.startedRow hprepared row hrow hstarted
    have hlt := (h.seq_bounds he).1
    omega
  · have hlt := hbelow hterminal
    omega
  · have hsame : row.toRunEvent = e := h.emitted_ascending.eq_of_key_eq hemitted he hseq
    have hdelta' := RunEvent.isDelta_of_carriesText htext
    rw [← hsame, hdelta] at hdelta'
    cases hdelta'

/-- The events above a cursor that can be read from the draft. -/
def retainedAfter (draft : Option RunDraft) (cursor : ℕ) : List RunEvent :=
  match draft with
  | none => []
  | some d => ((draftEventsAfter cursor d.updatedAt d.events).getD []).map
      RunEventResponse.toRunEvent

/-- The events that can be read from the draft were emitted, and their numbers are distinct. -/
theorem WorldInv.retainedAfter_spec (h : WorldInv cfg w) {cursor : ℕ}
    {d : RunDraft} (hd : d ∈ w.db.draft) {events : List RunEventResponse}
    (hdecoded : draftEventsAfter cursor d.updatedAt d.events = some events) :
    retainedAfter w.db.draft cursor = events.map RunEventResponse.toRunEvent ∧
      SeqLog.Ascending (fun e : RunEventResponse => e.seq) events ∧
        ∀ e ∈ events, e.toRunEvent ∈ w.worker.emitted ∧ cursor < e.seq ∧ e.seq ≤ d.seq := by
  obtain ⟨l, hl⟩ := h.draft_retains hd
  have hread : retainedAfter w.db.draft cursor = events.map RunEventResponse.toRunEvent := by
    rw [Option.mem_def.mp hd, retainedAfter, hdecoded]
    rfl
  rw [hl.events, draftEventsAfter_map_toDict, Option.some.injEq] at hdecoded
  subst hdecoded
  refine ⟨hread, List.pairwise_map.mpr (hl.ascending.filter _), fun e he => ?_⟩
  obtain ⟨e', he', rfl⟩ := List.mem_map.mp he
  obtain ⟨hmem, hlt⟩ := List.mem_filter.mp he'
  obtain ⟨last, hlast, hseq⟩ := hl.last
  exact ⟨hl.emitted e' hmem, by simpa using hlt, hseq ▸ hl.ascending.key_le_of_getLast? hmem hlast⟩

/-! ### The invariant of a reader -/

/-- An answer of the database: rows above the cursor. -/
structure RowsAbove (w : World) (cursor : ℕ) (rows : List RunEventResponse) : Prop where
  mem : ∀ e ∈ rows, e ∈ w.db.events
  above : ∀ e ∈ rows, cursor < e.seq
  nodup : (rows.map fun e => e.seq).Nodup

/-- An answer of the stream: events of the run above the cursor. -/
structure EntriesAbove (w : World) (cursor : ℕ) (entries : List RunEventResponse) : Prop where
  known : ∀ e ∈ entries, w.Knows e.toRunEvent
  above : ∀ e ∈ entries, cursor < e.seq
  ascending : SeqLog.Ascending (fun e : RunEventResponse => e.seq) entries

/-- What the program counter of the reader says about the answers it holds. -/
def Answers (w : World) (r : Reader) : Prop :=
  match r.pc with
  | .replay persisted => RowsAbove w r.cursor persisted
  | .readDraft persisted streamed =>
    RowsAbove w r.cursor persisted ∧ EntriesAbove w r.cursor streamed
  | .terminalCheck persisted => ∀ e ∈ persisted, e.type.isTerminal = false
  | .raised => False
  | _ => True

/-- The order in which a reader yields: by number, and with the same number only deltas. -/
def YieldOrder (a b : RunEventResponse) : Prop :=
  a.seq < b.seq ∨ a.seq = b.seq ∧ b.type.isDelta = true

/-- The invariant of a run that a client follows from `afterSeq` on. -/
structure SubscriptionInv (cfg : Settings) (afterSeq : ℕ) (s : Subscription) : Prop where
  world : WorldInv cfg s.world
  afterSeq_le : afterSeq ≤ s.reader.cursor
  cursor : s.reader.cursor = afterSeq ∨ (∃ e ∈ s.reader.yielded, e.seq = s.reader.cursor) ∨
    ∃ e ∈ s.world.worker.emitted, e.carriesText = true ∧ e.seq = s.reader.cursor
  answers : Answers s.world s.reader
  yieldedSeq : ∀ e ∈ s.reader.yielded, afterSeq < e.seq ∧ e.seq ≤ s.reader.cursor
  yieldedBacked : ∀ e ∈ s.reader.yielded, s.world.Backs e.toRunEvent
  yieldedOrder : s.reader.yielded.Pairwise YieldOrder
  terminal : ∀ e ∈ s.reader.yielded, e.type.isTerminal = true →
    s.reader.pc = .finished ∧ s.reader.cursor = e.seq

theorem subscriptionInv_open (h : WorldInv cfg w) (afterSeq : ℕ) :
    SubscriptionInv cfg afterSeq (.open w afterSeq) where
  world := h
  afterSeq_le := le_rfl
  cursor := .inl rfl
  answers := trivial
  yieldedSeq _ he := by cases he
  yieldedBacked _ he := by cases he
  yieldedOrder := List.Pairwise.nil
  terminal _ he := by cases he

theorem Answers.step {a : Action} (h : Answers w r) (hw : WorldInv cfg w)
    (hstep : w.step cfg a = some w') : Answers w' r := by
  have hrows : ∀ {rows}, RowsAbove w r.cursor rows → RowsAbove w' r.cursor rows := fun hrows =>
    ⟨fun e he => World.events_subset_of_step hw hstep (hrows.mem e he), hrows.above, hrows.nodup⟩
  unfold Answers at h ⊢
  cases hpc : r.pc <;> rw [hpc] at h <;> dsimp only at h ⊢
  case replay persisted => exact hrows h
  case readDraft persisted streamed =>
    exact ⟨hrows h.1, fun e he => (h.2.known e he).step hw hstep, h.2.above, h.2.ascending⟩
  case terminalCheck persisted => exact h

/-- The steps of the others preserve the invariant. -/
theorem SubscriptionInv.env {a : Action} (h : SubscriptionInv cfg afterSeq s)
    (hstep : s.world.step cfg a = some w') :
    SubscriptionInv cfg afterSeq { s with world := w' } :=
  { h with
    world := h.world.step hstep
    cursor := h.cursor.imp_right fun hcursor => hcursor.imp_right fun ⟨e, he, htext⟩ =>
      ⟨e, World.emitted_subset_of_step hstep he, htext⟩
    answers := h.answers.step h.world hstep
    yieldedBacked := fun e he => (h.yieldedBacked e he).step h.world hstep }

/-- The cursor is the number the client gave or that of an event of the run. -/
theorem SubscriptionInv.cursor_known (h : SubscriptionInv cfg afterSeq s) :
    s.reader.cursor = afterSeq ∨ ∃ e, s.world.Knows e ∧ e.seq = s.reader.cursor := by
  rcases h.cursor with hstart | ⟨e, he, hseq⟩ | ⟨e, he, -, hseq⟩
  · exact .inl hstart
  · exact .inr (hseq ▸ (h.yieldedBacked e he).knows_seq)
  · exact .inr ⟨e, .inl he, hseq⟩

/-- The terminal event a reader has yielded is the one of the log. -/
theorem SubscriptionInv.terminal_row (h : SubscriptionInv cfg afterSeq s) {e : RunEventResponse}
    (he : e ∈ s.reader.yielded) (htype : e.type.isTerminal = true) :
    ∃ row ∈ s.world.db.events, row.toRunEvent = e.toRunEvent := by
  rcases h.yieldedBacked e he with hknown | ⟨hdelta, -⟩
  · exact h.world.row_of_terminal hknown htype
  · rw [RunEventType.isDelta_eq_false_of_isTerminal htype] at hdelta
    cases hdelta

/-- While the run is active no terminal event has been yielded. -/
theorem SubscriptionInv.not_terminal_of_active (h : SubscriptionInv cfg afterSeq s)
    (hactive : runHasTerminalEvent s.world.db = false) :
    ∀ e ∈ s.reader.yielded, e.type.isTerminal = false := by
  intro e he
  by_contra htype
  have htype : e.type.isTerminal = true := by simpa using htype
  obtain ⟨row, hrow, heq⟩ := h.terminal_row he htype
  have hrowType : row.type = e.type := congrArg RunEvent.type heq
  rw [runHasTerminalEvent_iff.mpr ⟨row, hrow, hrowType ▸ htype⟩] at hactive
  cases hactive

/-- While the reader is not finished it has yielded no terminal event. -/
theorem SubscriptionInv.not_terminal_of_unfinished (h : SubscriptionInv cfg afterSeq s)
    (hunfinished : s.reader.pc ≠ .finished) :
    ∀ e ∈ s.reader.yielded, e.type.isTerminal = false := by
  intro e he
  by_contra htype
  exact hunfinished (h.terminal e he (by simpa using htype)).1

/-- Before it yields the terminal event, a reader's cursor is the client's number or at most the
latest number. -/
theorem SubscriptionInv.cursor_le_latestSeq (h : SubscriptionInv cfg afterSeq s)
    (hprepared : s.world.worker.phase.isPrepared = true)
    (hopen : ∀ e ∈ s.reader.yielded, e.type.isTerminal = false) :
    s.reader.cursor = afterSeq ∨ s.reader.cursor ≤ s.world.worker.latestSeq := by
  have hemitted : ∀ e ∈ s.world.worker.emitted, e.seq ≤ s.world.worker.latestSeq :=
    fun e he => (h.world.seq_bounds he).2
  rcases h.cursor with hstart | ⟨y, hy, hseq⟩ | ⟨e, he, -, hseq⟩
  · exact .inl hstart
  · right
    rw [← hseq]
    rcases h.yieldedBacked y hy with (hknown | ⟨row, hrow, heq⟩) | ⟨-, e, he, -, hseq'⟩
    · exact hemitted _ hknown
    · have hrowSeq : row.seq = y.seq := congrArg RunEvent.seq heq
      have hrowType : row.type = y.type := congrArg RunEvent.type heq
      have hle := h.world.row_seq_le hprepared hrow (hrowType ▸ hopen y hy)
      omega
    · have hle := hemitted e he
      have hseq'' : e.seq = y.seq := hseq'
      omega
  · exact .inr (hseq ▸ hemitted e he)

/-! ### What one call can do -/

/-- The possible effects of one call of the reader. -/
inductive ReadStep (w : World) (r r' : Reader) (redisOk : Bool) : Prop where
  /-- The reader keeps an answer or moves on, and yields nothing. -/
  | asks (pc : ReaderPc) (eq : r' = { r with pc := pc }) (answers : Answers w r')
      (unfinished : pc ≠ .finished)
      (offline : ∀ persisted streamed, pc = .readDraft persisted streamed →
        redisOk = true ∨ streamed = [])
      (source : ∀ persisted streamed, r.pc ≠ .readDraft persisted streamed)
  /-- The reader looks for a terminal event. -/
  | checks (persisted : List RunEventResponse) (pc : r.pc = .terminalCheck persisted)
      (eq : r' = { r with pc := if runHasTerminalEvent w.db then .finished else .tail })
  /-- The tail of the stream is delivered. -/
  | tail (pc : r.pc = .tail) (redisOk : redisOk = true)
      (answer : EntriesAbove w r.cursor (w.stream.readAfter r.cursor))
      (delivers : r.Delivers r' .tail (w.stream.readAfter r.cursor) 0)
  /-- The answers of an iteration are merged and delivered. -/
  | merge (persisted streamed checkpointEvents : List RunEventResponse)
      (pc : r.pc = .readDraft persisted streamed)
      (rows : RowsAbove w r.cursor persisted) (entries : EntriesAbove w r.cursor streamed)
      (checkpoint : Reader.CheckpointEvents r streamed w.db.draft checkpointEvents)
      (delivers : r.Delivers r' (.terminalCheck persisted)
        (Reader.mergeEvents streamed checkpointEvents persisted)
        ((w.db.draft.map fun d => d.seq).getD 0))

theorem WorldInv.rowsAbove (h : WorldInv cfg w) (cursor : ℕ) :
    RowsAbove w cursor (listRunEventsAfter w.db cursor) where
  mem _ he := (mem_listRunEventsAfter.mp he).1
  above _ he := (mem_listRunEventsAfter.mp he).2
  nodup := List.pairwise_map.mpr ((ascending_listRunEventsAfter h.rowsNodup).imp fun h => h.ne)

theorem WorldInv.entriesAbove (h : WorldInv cfg w) (cursor : ℕ) :
    EntriesAbove w cursor (w.stream.listAfter cursor) where
  known e he := h.streamKnown e (EventStream.mem_listAfter.mp he).1
  above _ he := (EventStream.mem_listAfter.mp he).2
  ascending := h.streamOrdered.ascending_listAfter

theorem EntriesAbove.nil {cursor : ℕ} : EntriesAbove w cursor [] where
  known _ he := by cases he
  above _ he := by cases he
  ascending := List.Pairwise.nil

theorem EntriesAbove.take {cursor : ℕ} {entries : List RunEventResponse}
    (h : EntriesAbove w cursor entries) (n : ℕ) : EntriesAbove w cursor (entries.take n) where
  known e he := h.known e (List.mem_of_mem_take he)
  above e he := h.above e (List.mem_of_mem_take he)
  ascending := h.ascending.sublist (List.take_sublist _ _)

theorem EntriesAbove.nodup {cursor : ℕ} {entries : List RunEventResponse}
    (h : EntriesAbove w cursor entries) : (entries.map fun e => e.seq).Nodup :=
  List.pairwise_map.mpr (h.ascending.imp fun h => h.ne)

/-- **Inversion.** The effects of a call in a state that satisfies the invariant. -/
theorem Subscription.read_cases {redisOk : Bool} (h : SubscriptionInv cfg afterSeq s)
    (hstep : s.reader.step redisOk s.world.db s.world.stream = some r') :
    ReadStep s.world s.reader r' redisOk := by
  have hanswers := h.answers
  unfold Answers at hanswers
  unfold Reader.step at hstep
  cases hpc : s.reader.pc <;> rw [hpc] at hanswers hstep <;> dsimp only at hanswers hstep <;>
    cases hstep
  case listFirst =>
    exact .asks _ rfl (h.world.rowsAbove s.reader.cursor) ReaderPc.noConfusion
      (fun _ _ hpc' => ReaderPc.noConfusion hpc') fun _ _ => hpc ▸ ReaderPc.noConfusion
  case replay persisted =>
    have hentries : EntriesAbove s.world s.reader.cursor
        (if redisOk then s.world.stream.listAfter s.reader.cursor else []) := by
      split
      · exact h.world.entriesAbove s.reader.cursor
      · exact .nil
    refine .asks _ rfl ⟨hanswers, hentries⟩ ReaderPc.noConfusion (fun _ _ hpc' => ?_)
      fun _ _ => hpc ▸ ReaderPc.noConfusion
    obtain ⟨-, rfl⟩ := ReaderPc.readDraft.inj hpc'
    cases redisOk
    · exact .inr rfl
    · exact .inl rfl
  case tail =>
    by_cases hnil : (if redisOk then s.world.stream.readAfter s.reader.cursor else []) = []
    · rw [hnil]
      exact .asks .list (by simp [Reader.followTail]) trivial ReaderPc.noConfusion
        (fun _ _ hpc' => ReaderPc.noConfusion hpc') fun _ _ => hpc ▸ ReaderPc.noConfusion
    · cases redisOk with
      | false => exact absurd rfl hnil
      | true =>
        rw [if_pos rfl] at hnil ⊢
        have hanswer := (h.world.entriesAbove s.reader.cursor).take 256
        exact .tail hpc rfl hanswer
          (Reader.followTail_delivers hpc hnil hanswer.ascending hanswer.above)
  case list =>
    exact .asks _ rfl ⟨h.world.rowsAbove s.reader.cursor, .nil⟩ ReaderPc.noConfusion
      (fun _ _ hpc' => .inr (ReaderPc.readDraft.inj hpc').2.symm)
      fun _ _ => hpc ▸ ReaderPc.noConfusion
  case readDraft persisted streamed =>
    obtain ⟨hrows, hentries⟩ := hanswers
    have hdraft : ∀ d ∈ s.world.db.draft, ∃ l : List RunEvent, d.events = l.map RunEvent.toDict :=
      fun d hd => (h.world.draft_retains hd).imp fun _ hretains => hretains.events
    obtain ⟨checkpointEvents, hcheckpoint, hdelivers⟩ :=
      Reader.merge_delivers hdraft hentries.nodup hrows.nodup hentries.above hrows.above
    exact .merge persisted streamed checkpointEvents hpc hrows hentries hcheckpoint hdelivers
  case terminalCheck persisted => exact .checks persisted hpc rfl

/-! ### Batches -/

/-- A batch a reader may deliver: events of the run, or deltas with the number of one, above the
cursor and in order. -/
structure Batch (w : World) (cursor : ℕ) (batch : List RunEventResponse) : Prop where
  backed : ∀ e ∈ batch, w.Backs e.toRunEvent
  above : ∀ e ∈ batch, cursor < e.seq
  order : batch.Pairwise YieldOrder

theorem EntriesAbove.batch {cursor : ℕ} {entries : List RunEventResponse}
    (h : EntriesAbove w cursor entries) : Batch w cursor entries where
  backed e he := .inl (h.known e he)
  above := h.above
  order := h.ascending.imp fun h => .inl h

/-- What is taken from the draft: deltas above the cursor, with the numbers of emitted events that
carry text, up to the number of the draft. -/
theorem Reader.CheckpointEvents.spec {streamed checkpointEvents : List RunEventResponse}
    (h : Reader.CheckpointEvents r streamed w.db.draft checkpointEvents) (hw : WorldInv cfg w)
    {e : RunEventResponse} (he : e ∈ checkpointEvents) :
    r.cursor < e.seq ∧ e.type.isDelta = true ∧
      (∃ e' ∈ w.worker.emitted, e'.carriesText = true ∧ e'.seq = e.seq) ∧
        ∃ d ∈ w.db.draft, e.seq ≤ d.seq := by
  have hretains : ∀ d ∈ w.db.draft, ∃ l, Retains w d l := fun d hd => hw.draft_retains hd
  have hdraft : ∀ d ∈ w.db.draft, ∃ l : List RunEvent, d.events = l.map RunEvent.toDict :=
    fun d hd => (hretains d hd).imp fun _ hl => hl.events
  refine ⟨h.cursor_lt hdraft he, ?_⟩
  generalize w.db.draft = draft at h hretains
  cases h with
  | absent => cases he
  | behind => cases he
  | @retained d events hlt hdecoded =>
    obtain ⟨l, hl⟩ := hretains d rfl
    rw [hl.events, draftEventsAfter_map_toDict, Option.some.injEq] at hdecoded
    obtain ⟨e', he', rfl⟩ := List.mem_map.mp (hdecoded ▸ (List.mem_filter.mp he).1)
    have hmem : e' ∈ l := (List.mem_filter.mp he').1
    obtain ⟨last, hlast, hseq⟩ := hl.last
    exact ⟨RunEvent.isDelta_of_carriesText (hl.carriesText e' hmem),
      ⟨e', hl.emitted e' hmem, hl.carriesText e' hmem, rfl⟩, d, rfl,
      hseq ▸ hl.ascending.key_le_of_getLast? hmem hlast⟩
  | @snapshot d =>
    obtain ⟨l, hl⟩ := hretains d rfl
    obtain ⟨hseq, hdelta⟩ := of_mem_snapshotEvents he
    obtain ⟨last, hlast, hlastSeq⟩ := hl.last
    have hmem := List.mem_of_getLast? hlast
    exact ⟨hdelta, ⟨last, hl.emitted last hmem, hl.carriesText last hmem, hlastSeq.trans hseq.symm⟩,
      d, rfl, hseq.le⟩

/-- What is taken from the draft when its snapshot is not repeated: emitted events, one for a
number, that the stream did not give; and all of them. -/
theorem WorldInv.checkpointEvents_spec (h : WorldInv cfg w)
    {streamed checkpointEvents : List RunEventResponse}
    (hcheckpoint : Reader.CheckpointEvents r streamed w.db.draft checkpointEvents)
    (hrepeat : ¬(r.checkpointBaselineKnown = true ∧ ∃ d ∈ w.db.draft, r.cursor < d.seq ∧
      ∀ e ∈ retainedAfter w.db.draft r.cursor, e.seq ∈ streamed.map fun e => e.seq)) :
    (checkpointEvents.map fun e => e.seq).Nodup ∧
      (∀ e ∈ checkpointEvents, e.seq ∉ streamed.map fun e => e.seq) ∧
      (∀ e ∈ checkpointEvents, e.toRunEvent ∈ w.worker.emitted) ∧
      ∀ e ∈ retainedAfter w.db.draft r.cursor, (e.seq ∉ streamed.map fun e => e.seq) →
        ∃ y ∈ checkpointEvents, y.toRunEvent = e := by
  cases hdraft : w.db.draft with
  | none =>
    rw [hdraft] at hcheckpoint
    cases hcheckpoint
    refine ⟨List.nodup_nil, ?_, ?_, ?_⟩ <;> intro e he <;> cases he
  | some d =>
    have hmem : d ∈ w.db.draft := hdraft
    rw [hdraft] at hcheckpoint
    cases hcheckpoint with
    | behind =>
      refine ⟨List.nodup_nil, by simp, by simp, fun e he => ?_⟩
      obtain ⟨l, hl⟩ := h.draft_retains hmem
      have hdecoded := draftEventsAfter_map_toDict r.cursor d.updatedAt l
      rw [← hl.events] at hdecoded
      obtain ⟨hread, -, hevents⟩ := h.retainedAfter_spec hmem hdecoded
      rw [← hdraft, hread] at he
      obtain ⟨y, hy, rfl⟩ := List.mem_map.mp he
      have hbounds := (hevents y hy).2
      omega
    | @retained _ events hlt hdecoded =>
      obtain ⟨hread, hascending, hevents⟩ := h.retainedAfter_spec hmem hdecoded
      refine ⟨List.pairwise_map.mpr ((hascending.filter _).imp fun hab => hab.ne),
        fun e he => by simpa using (List.mem_filter.mp he).2,
        fun e he => (hevents e (List.mem_filter.mp he).1).1, fun e he hnew => ?_⟩
      rw [← hdraft, hread] at he
      obtain ⟨y, hy, rfl⟩ := List.mem_map.mp he
      exact ⟨y, List.mem_filter.mpr ⟨hy, by simpa using hnew⟩, rfl⟩
    | @snapshot _ events hlt hdecoded hcovered hbaseline =>
      refine absurd ⟨hbaseline, d, hmem, hlt, fun e he => ?_⟩ hrepeat
      rw [(h.retainedAfter_spec hmem hdecoded).1] at he
      obtain ⟨y, hy, rfl⟩ := List.mem_map.mp he
      exact hcovered y hy

/-- The answers of an iteration merge to a batch. -/
theorem batch_mergeEvents {persisted streamed checkpointEvents : List RunEventResponse}
    (hw : WorldInv cfg w) (hrows : RowsAbove w r.cursor persisted)
    (hentries : EntriesAbove w r.cursor streamed)
    (hcheckpoint : Reader.CheckpointEvents r streamed w.db.draft checkpointEvents) :
    Batch w r.cursor (Reader.mergeEvents streamed checkpointEvents persisted) where
  backed e he := by
    rcases (Reader.mem_mergeEvents hentries.nodup hrows.nodup).mp he with he | ⟨-, he | he⟩
    · exact .inl (.inr ⟨e, hrows.mem e he, rfl⟩)
    · exact .inl (hentries.known e he)
    · obtain ⟨-, hdelta, hbacked, -⟩ := hcheckpoint.spec hw he
      exact .inr ⟨hdelta, hbacked⟩
  above e he := by
    rcases (Reader.mem_mergeEvents hentries.nodup hrows.nodup).mp he with he | ⟨-, he | he⟩
    · exact hrows.above e he
    · exact hentries.above e he
    · exact (hcheckpoint.spec hw he).1
  order := (Reader.pairwise_mergeEvents hentries.nodup hrows.nodup).imp fun hab =>
    hab.imp_right fun ⟨hseq, hb⟩ => ⟨hseq, (hcheckpoint.spec hw hb).2.1⟩

/-- The rows of an iteration are delivered. -/
theorem mem_mergeEvents_of_row {persisted streamed checkpointEvents : List RunEventResponse}
    (hrows : RowsAbove w r.cursor persisted) (hentries : EntriesAbove w r.cursor streamed)
    {e : RunEventResponse} (he : e ∈ persisted) :
    e ∈ Reader.mergeEvents streamed checkpointEvents persisted :=
  (Reader.mem_mergeEvents hentries.nodup hrows.nodup).mpr (.inl he)

/-- A number the merge moves the cursor to lies at or below something listed or streamed, or at or
below the number of the draft. -/
theorem Reader.Delivers.le_answers {next : ReaderPc}
    {persisted streamed checkpointEvents : List RunEventResponse} {n : ℕ} (hw : WorldInv cfg w)
    (hrows : RowsAbove w r.cursor persisted) (hentries : EntriesAbove w r.cursor streamed)
    (hcheckpoint : Reader.CheckpointEvents r streamed w.db.draft checkpointEvents)
    (hd : r.Delivers r' next (Reader.mergeEvents streamed checkpointEvents persisted)
      ((w.db.draft.map fun d => d.seq).getD 0))
    (hlt : r.cursor < n) (hle : n ≤ r'.cursor) :
    (∃ e ∈ persisted ++ streamed, n ≤ e.seq) ∨ ∃ d ∈ w.db.draft, n ≤ d.seq := by
  rcases hd.le_batch_or_top hlt hle with ⟨e, he, hle'⟩ | htop
  · rcases (Reader.mem_mergeEvents hentries.nodup hrows.nodup).mp he with he | ⟨-, he | he⟩
    · exact .inl ⟨e, List.mem_append_left _ he, hle'⟩
    · exact .inl ⟨e, List.mem_append_right _ he, hle'⟩
    · obtain ⟨-, -, -, d, hdraft, hled⟩ := hcheckpoint.spec hw he
      exact .inr ⟨d, hdraft, hle'.trans hled⟩
  · right
    cases hdraft : w.db.draft with
    | none =>
      rw [hdraft] at htop
      simp only [Option.map_none, Option.getD_none] at htop
      omega
    | some d =>
      rw [hdraft] at htop
      exact ⟨d, rfl, htop⟩

/-- Delivering a batch preserves the invariant. -/
theorem SubscriptionInv.delivers {next : ReaderPc} {batch : List RunEventResponse} {top : ℕ}
    (h : SubscriptionInv cfg afterSeq s) (hunfinished : s.reader.pc ≠ .finished)
    (hbatch : Batch s.world s.reader.cursor batch) (hd : s.reader.Delivers r' next batch top)
    (htop : top = 0 ∨ ∃ e ∈ s.world.worker.emitted, e.carriesText = true ∧ e.seq = top)
    (hnext : (∀ e ∈ batch, e.type.isTerminal = false) → Answers s.world { r' with pc := next }) :
    SubscriptionInv cfg afterSeq { s with reader := r' } where
  world := h.world
  afterSeq_le := h.afterSeq_le.trans hd.cursor_le
  cursor := by
    show r'.cursor = afterSeq ∨ (∃ e ∈ r'.yielded, e.seq = r'.cursor) ∨
      ∃ e ∈ s.world.worker.emitted, e.carriesText = true ∧ e.seq = r'.cursor
    have hold : r'.cursor = s.reader.cursor → r'.cursor = afterSeq ∨
        (∃ e ∈ r'.yielded, e.seq = r'.cursor) ∨
          ∃ e ∈ s.world.worker.emitted, e.carriesText = true ∧ e.seq = r'.cursor := by
      intro hsame
      rw [hsame, hd.yielded]
      exact h.cursor.imp_right fun hcursor => hcursor.imp_left fun ⟨e, he, hseq⟩ =>
        ⟨e, List.mem_append_left _ he, hseq⟩
    rcases hd.cursor_mem with hsame | ⟨e, he, hseq⟩ | ⟨-, hcursor⟩
    -- the cursor stands, is a yielded number, or is the draft's top
    · exact hold hsame
    · exact .inr (.inl ⟨e, hd.yielded ▸ List.mem_append_right _ he, hseq⟩)
    · rcases htop with hzero | htext
      · have hle := hd.cursor_le
        exact hold (by omega)
      · exact .inr (.inr (hcursor ▸ htext))
  answers := by
    have hpc := hd.pc
    by_cases hterminal : batch.any (fun e => e.type.isTerminal) = true
    · rw [if_pos hterminal] at hpc
      unfold Answers
      rw [hpc]
      trivial
    · rw [if_neg hterminal] at hpc
      have hanswers := hnext (by simpa using hterminal)
      rwa [← hpc] at hanswers
  yieldedSeq e he := by
    rw [hd.yielded] at he
    rcases List.mem_append.mp he with he | he
    · have hseq := h.yieldedSeq e he
      exact ⟨hseq.1, hseq.2.trans hd.cursor_le⟩
    · have habove := hbatch.above e (SeqLog.mem_of_mem_takeThrough he)
      exact ⟨h.afterSeq_le.trans_lt habove, hd.le_cursor e he⟩
  yieldedBacked e he := by
    rw [hd.yielded] at he
    rcases List.mem_append.mp he with he | he
    · exact h.yieldedBacked e he
    · exact hbatch.backed e (SeqLog.mem_of_mem_takeThrough he)
  yieldedOrder := by
    rw [hd.yielded]
    refine List.pairwise_append.mpr ⟨h.yieldedOrder,
      hbatch.order.sublist (SeqLog.takeThrough_isPrefix _ _).sublist, fun a ha b hb => .inl ?_⟩
    exact (h.yieldedSeq a ha).2.trans_lt (hbatch.above b (SeqLog.mem_of_mem_takeThrough hb))
  terminal e he htype := by
    rw [hd.yielded] at he
    rcases List.mem_append.mp he with he | he
    · exact absurd (h.terminal e he htype).1 hunfinished
    · refine ⟨?_, hd.cursor_of_terminal e he htype⟩
      have hany : batch.any (fun e => e.type.isTerminal) = true :=
        List.any_eq_true.mpr ⟨e, SeqLog.mem_of_mem_takeThrough he, htype⟩
      exact hd.pc.trans (if_pos hany)

/-- What a delivery adds to the deltas that were yielded: when they were the emitted ones that meet
`p`, and the batch has no others, they are then the emitted ones that meet `p` or are delivered. -/
theorem SubscriptionInv.textEvents_delivers {next : ReaderPc} {batch : List RunEventResponse}
    {top : ℕ} {p q : RunEvent → Bool} (h : SubscriptionInv cfg afterSeq s)
    (hascending : SeqLog.Ascending (fun e : RunEventResponse => e.seq) batch)
    (habove : ∀ e ∈ batch, s.reader.cursor < e.seq) (hd : s.reader.Delivers r' next batch top)
    (htexts : textEvents (s.reader.yielded.map RunEventResponse.toRunEvent) =
      (textEvents s.world.worker.emitted).filter p)
    (hemitted : ∀ e ∈ batch, e.carriesText = true → e.toRunEvent ∈ s.world.worker.emitted)
    (hq : ∀ e ∈ s.world.worker.emitted, e.carriesText = true →
      (q e = true ↔ p e = true ∨ ∃ y ∈ Reader.throughTerminal batch, y.toRunEvent = e)) :
    textEvents (r'.yielded.map RunEventResponse.toRunEvent) =
      (textEvents s.world.worker.emitted).filter q := by
  have hprefix : (Reader.throughTerminal batch).Sublist batch :=
    (SeqLog.takeThrough_isPrefix _ batch).sublist
  have hall : SeqLog.Ascending RunEvent.seq (textEvents s.world.worker.emitted) :=
    h.world.emitted_ascending.filter _
  have hnew : SeqLog.Ascending RunEvent.seq
      ((Reader.throughTerminal batch).map RunEventResponse.toRunEvent) :=
    List.pairwise_map.mpr (hascending.sublist hprefix)
  rw [hd.yielded, List.map_append, textEvents, List.filter_append]
  refine SeqLog.Ascending.ext (SeqLog.ascending_append.mpr ⟨?_, hnew.filter _, ?_⟩)
    (hall.filter _) fun e => ?_
  · rw [show List.filter _ _ = _ from htexts]
    exact hall.filter _
  · intro a ha b hb
    obtain ⟨x, hx, rfl⟩ := List.mem_map.mp (List.mem_filter.mp ha).1
    obtain ⟨y, hy, rfl⟩ := List.mem_map.mp (List.mem_filter.mp hb).1
    exact (h.yieldedSeq x hx).2.trans_lt (habove y (SeqLog.mem_of_mem_takeThrough hy))
  · rw [show List.filter RunEvent.carriesText _ = _ from htexts]
    simp only [List.mem_append, List.mem_filter]
    constructor
    · rintro (⟨he, hp⟩ | ⟨hmem, htext⟩)
      · obtain ⟨he', htext⟩ := List.mem_filter.mp he
        exact ⟨he, (hq e he' htext).mpr (.inl hp)⟩
      · obtain ⟨y, hy, rfl⟩ := List.mem_map.mp hmem
        have he := hemitted y (SeqLog.mem_of_mem_takeThrough hy) htext
        exact ⟨List.mem_filter.mpr ⟨he, htext⟩, (hq _ he htext).mpr (.inr ⟨y, hy, rfl⟩)⟩
    · rintro ⟨he, hqe⟩
      obtain ⟨he', htext⟩ := List.mem_filter.mp he
      rcases (hq e he' htext).mp hqe with hp | ⟨y, hy, rfl⟩
      · exact .inl ⟨he, hp⟩
      · exact .inr ⟨List.mem_map_of_mem hy, htext⟩

/-- The calls of the reader preserve the invariant. -/
theorem SubscriptionInv.read {redisOk : Bool} (h : SubscriptionInv cfg afterSeq s)
    (hstep : s.reader.step redisOk s.world.db s.world.stream = some r') :
    SubscriptionInv cfg afterSeq { s with reader := r' } := by
  have hunfinished : s.reader.pc ≠ .finished := by
    intro hpc
    simp [Reader.step, hpc] at hstep
  have hopen : ∀ e ∈ s.reader.yielded, e.type.isTerminal = true → False := fun e he htype =>
    hunfinished (h.terminal e he htype).1
  rcases Subscription.read_cases h hstep with ⟨pc, rfl, hanswers, -, -, -⟩ | ⟨persisted, -, rfl⟩ |
    ⟨-, -, hanswer, hd⟩ | ⟨persisted, streamed, checkpointEvents, -, hrows, hentries,
      hcheckpoint, hd⟩
  · exact { h with
      answers := hanswers
      terminal := fun e he htype => (hopen e he htype).elim }
  · exact { h with
      answers := by split <;> exact trivial
      terminal := fun e he htype => (hopen e he htype).elim }
  · exact h.delivers hunfinished hanswer.batch hd (.inl rfl) fun _ => trivial
  · refine h.delivers hunfinished (batch_mergeEvents h.world hrows hentries hcheckpoint) hd ?_
      fun hall e he => hall e (mem_mergeEvents_of_row hrows hentries he)
    cases hdraft : s.world.db.draft with
    | none => exact .inl rfl
    | some =>
      obtain ⟨l, hl⟩ := h.world.draft_retains hdraft
      obtain ⟨last, hlast, hseq⟩ := hl.last
      have hmem := List.mem_of_getLast? hlast
      exact .inr ⟨last, hl.emitted last hmem, hl.carriesText last hmem, hseq⟩

/-- **Step lemma.** -/
theorem SubscriptionInv.step {a : SubscriptionAction} (h : SubscriptionInv cfg afterSeq s)
    (hstep : s.step cfg a = some s') : SubscriptionInv cfg afterSeq s' := by
  cases a with
  | env =>
    obtain ⟨w', hw, rfl⟩ := Option.map_eq_some_iff.mp hstep
    exact h.env hw
  | read =>
    obtain ⟨r', hr, rfl⟩ := Option.map_eq_some_iff.mp hstep
    exact h.read hr

/-- **Run lemma.** Whenever a client connects, the invariant holds from then on. -/
theorem subscriptionInv_of_run {as : List SubscriptionAction} (hw : WorldInv cfg w)
    (hrun : StepSystem.run (Subscription.step cfg) (.open w afterSeq) as = some s) :
    SubscriptionInv cfg afterSeq s :=
  StepSystem.run_invariant (fun _ _ _ h hstep => h.step hstep) (subscriptionInv_open hw afterSeq)
    hrun

end IChat
