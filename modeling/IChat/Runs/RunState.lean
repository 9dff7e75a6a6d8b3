import IChat.Runs.Subscription

/-!
# The state of a run

`get_owned_run_state` assembles a snapshot of a run from three answers that it gets one after the
other: the rows of the log, the draft, and the part of the Redis stream above the draft. Its texts
are those of the draft with the deltas of the stream appended, its sources come from the rows, and
`latest_seq`, where a client resumes the stream, is the largest number that occurs in any of the
three.

`getOwnedRunState` is the function of these answers that the code computes, and `ResumePoint` says
which numbers `latest_seq` can be. `assembled_getOwnedRunState` says what each part of the state is
made of.
-/

namespace IChat

/-! ### Tool states -/

/-- `RunToolSourceResponse`. -/
structure RunToolSource where
  id : Int
  title : String
  url : String
  snippet : Option String
  publishedAt : Option String
  deriving DecidableEq

/-- The `status` of a tool state. -/
inductive ToolStatus where
  | running
  | succeeded
  | failed
  deriving DecidableEq

/-- `RunToolStateResponse`. -/
structure RunToolState where
  status : ToolStatus
  toolName : String
  query : Option String
  message : Option String
  resultCount : Option Int
  sources : List RunToolSource
  runningCount : Int
  batchSourceCount : Option Int
  deriving DecidableEq

/-- One item of the `sources` of a payload; `none` when `int` raises. -/
def toolSource (item : Dict) : Option RunToolSource :=
  (((Dict.get? item "id").getD (.int 0)).toInt?).map fun id =>
    { id
      title := ((Dict.get? item "title").getD (.str "")).toStr
      url := ((Dict.get? item "url").getD (.str "")).toStr
      snippet := (Dict.get? item "snippet").bind Json.str?
      publishedAt := (Dict.get? item "published_at").bind Json.str? }

/-- The `sources` of a payload, the items that are no objects left out; `none` when one raises. -/
def toolSources (payload : Dict) : Option (List RunToolSource) :=
  (((((Dict.get? payload "sources").bind Json.arr?).getD []).filterMap Json.obj?).mapM toolSource)

/-- `_tool_state_from_event`; `none` when it raises. -/
def toolStateFromEvent (event : RunEvent) : Option RunToolState :=
  (toolSources event.payload).map fun sources =>
    let status : ToolStatus :=
      match event.type with
      | .toolCallStarted => .running
      | .toolCallSucceeded => .succeeded
      | _ => .failed
    -- `isinstance(value, int)` holds of booleans too
    let int (key : String) : Option Int := (Dict.get? event.payload key).bind Json.instance?
    { status
      toolName := ((Dict.get? event.payload "tool_name").getD (.str "web_search")).toStr
      query := (Dict.get? event.payload "query").bind Json.str?
      message := (Dict.get? event.payload "message").bind Json.str?
      resultCount := int "result_count"
      sources
      runningCount :=
        match int "batch_size" with
        | some batchSize => if status = .running ∧ batchSize > 1 then batchSize else 1
        | none => 1
      batchSourceCount := if status ≠ .running then int "batch_source_count" else none }

/-! ### The state -/

/-- The rows of a run, in order. -/
def listRunEvents (db : Db) : List RunEventResponse :=
  db.events.insertionSort fun a b => a.seq ≤ b.seq

@[simp] theorem mem_listRunEvents {db : Db} {row : RunEventResponse} :
    row ∈ listRunEvents db ↔ row ∈ db.events :=
  List.mem_insertionSort _

/-- `RunStateResponse`, without the columns of the run that never change. -/
structure RunState extends Snapshot where
  status : RunStatus
  latestSeq : ℕ
  toolState : Option RunToolState
  sources : List RunToolSource
  terminalEvent : Option RunEventResponse
  deriving DecidableEq

namespace RunState

/-- Before the rows are read. -/
def start (status : RunStatus) : RunState where
  toSnapshot := .empty
  status := status
  latestSeq := 0
  toolState := none
  sources := []
  terminalEvent := none

/-- `sources.setdefault(source.id, source)`. -/
def setdefaultSource (sources : List RunToolSource) (source : RunToolSource) :
    List RunToolSource :=
  if source.id ∈ sources.map (fun s => s.id) then sources else sources ++ [source]

/-- The body of the loop over the rows; `none` when a tool state raises. -/
def readRow (state : RunState) (event : RunEventResponse) : Option RunState :=
  let state := { state with
    toSnapshot := state.toSnapshot.accumulate event.toRunEvent
    latestSeq := max state.latestSeq event.seq
    terminalEvent := if event.type.isTerminal then some event else state.terminalEvent }
  if event.type.isTool then
    (toolStateFromEvent event.toRunEvent).map fun toolState =>
      { state with
        toolState := some toolState
        sources := if event.type = .toolCallSucceeded then
            toolState.sources.foldl setdefaultSource state.sources
          else state.sources }
  else some state

/-- The loop over the rows. -/
def readRows : RunState → List RunEventResponse → Option RunState
  | state, [] => some state
  | state, event :: events => (state.readRow event).bind fun state => state.readRows events

/-- The body of the loop over the answer of the stream. -/
def readStreamEvent (state : RunState) (event : RunEventResponse) : RunState :=
  { state with
    toSnapshot := state.toSnapshot.accumulate event.toRunEvent
    latestSeq := max state.latestSeq event.seq }

end RunState

/-- The number of the last row that is a delta. -/
def latestPersistedDeltaSeq (rows : List RunEventResponse) : ℕ :=
  rows.foldl (fun n event => if event.delta.isSome then event.seq else n) 0

/-- The draft, if it is not older than the deltas among the rows. -/
def usedDraft (rows : List RunEventResponse) (draft : Option RunDraft) : Option RunDraft :=
  draft.filter fun d => latestPersistedDeltaSeq rows ≤ d.seq

/-- The number above which the stream is asked. -/
def streamAfterSeq (rows : List RunEventResponse) (draft : Option RunDraft) : ℕ :=
  ((usedDraft rows draft).map fun d => d.seq).getD (latestPersistedDeltaSeq rows)

/-- `get_owned_run_state`, as a function of the answers it gets; without a stream, or when reading
it fails, `streamed` is empty. `none` when it raises. -/
def getOwnedRunState (status : RunStatus) (rows : List RunEventResponse) (draft : Option RunDraft)
    (streamed : List RunEventResponse) : Option RunState :=
  ((RunState.start status).readRows rows).map fun state =>
    let state :=
      match usedDraft rows draft with
      | some d => { state with toSnapshot := d.toSnapshot, latestSeq := max state.latestSeq d.seq }
      | none => state
    streamed.foldl RunState.readStreamEvent state

/-- A number from which the state may let a client resume: that of a row, of the draft it used, or
of an event of the stream. -/
def ResumePoint (rows : List RunEventResponse) (draft : Option RunDraft)
    (streamed : List RunEventResponse) (n : ℕ) : Prop :=
  (∃ row ∈ rows, row.seq = n) ∨ (∃ d ∈ usedDraft rows draft, d.seq = n) ∨
    ∃ e ∈ streamed, e.seq = n

section RunState

variable {status : RunStatus} {rows streamed : List RunEventResponse} {draft : Option RunDraft}
  {state state' : RunState} {event row : RunEventResponse} {c : Channel}

/-! ### The rows -/

theorem RunState.mem_setdefaultSource {sources : List RunToolSource} {source s : RunToolSource} :
    (∃ x ∈ setdefaultSource sources source, x.id = s.id) ↔
      (∃ x ∈ sources, x.id = s.id) ∨ source.id = s.id := by
  unfold setdefaultSource
  split
  · rename_i hmem
    obtain ⟨x, hx, hid⟩ := List.mem_map.mp hmem
    refine ⟨.inl, fun h => h.elim id fun hsource => ⟨x, hx, hid.trans hsource⟩⟩
  · simp only [List.mem_append, List.mem_singleton]
    constructor
    · rintro ⟨x, hx | rfl, hid⟩
      · exact .inl ⟨x, hx, hid⟩
      · exact .inr hid
    · rintro (⟨x, hx, hid⟩ | hid)
      · exact ⟨x, .inl hx, hid⟩
      · exact ⟨source, .inr rfl, hid⟩

/-- Adding sources keeps those that are there and leaves none of the new ones without an entry
under its citation number. -/
theorem RunState.mem_foldl_setdefaultSource {added sources : List RunToolSource}
    {s : RunToolSource} :
    (∃ x ∈ added.foldl setdefaultSource sources, x.id = s.id) ↔
      (∃ x ∈ sources, x.id = s.id) ∨ ∃ x ∈ added, x.id = s.id := by
  induction added generalizing sources with
  | nil => simp
  | cons source added ih =>
    rw [List.foldl_cons, ih, mem_setdefaultSource]
    simp only [List.mem_cons, exists_eq_or_imp, or_assoc]

/-- What reading one row adds to the state. -/
structure RunState.ReadsRow (state state' : RunState) (event : RunEventResponse) : Prop where
  channel : ∀ c, state'.channel c = state.channel c ++ event.channelText c
  latestSeq : state'.latestSeq = max state.latestSeq event.seq
  terminal : state'.terminalEvent =
    if event.type.isTerminal then some event else state.terminalEvent
  kept : ∀ s : RunToolSource, (∃ x ∈ state.sources, x.id = s.id) → ∃ x ∈ state'.sources, x.id = s.id
  added : event.type = .toolCallSucceeded → ∀ s ∈ (toolSources event.payload).getD [],
    ∃ x ∈ state'.sources, x.id = s.id

theorem RunState.readsRow (h : state.readRow event = some state') :
    state.ReadsRow state' event := by
  unfold readRow at h
  dsimp only at h
  split at h
  · obtain ⟨toolState, htool, rfl⟩ := Option.map_eq_some_iff.mp h
    have hsources : toolSources event.payload = some toolState.sources := by
      obtain ⟨sources, hsources, rfl⟩ := Option.map_eq_some_iff.mp htool
      exact hsources
    refine ⟨fun c => Snapshot.channel_accumulate _ _ c, rfl, rfl, fun s hs => ?_,
      fun htype s hs => ?_⟩
    · dsimp only
      split
      · exact mem_foldl_setdefaultSource.mpr (.inl hs)
      · exact hs
    · rw [hsources, Option.getD_some] at hs
      dsimp only
      rw [if_pos htype]
      exact mem_foldl_setdefaultSource.mpr (.inr ⟨s, hs, rfl⟩)
  · rename_i htool
    cases h
    refine ⟨fun c => Snapshot.channel_accumulate _ _ c, rfl, rfl, fun s hs => hs, fun htype => ?_⟩
    rw [htype] at htool
    exact absurd rfl htool

/-- What reading the rows leaves in the state. -/
structure RunState.ReadsRows (state state' : RunState) (rows : List RunEventResponse) : Prop where
  channel : ∀ c, state'.channel c =
    state.channel c ++ channelText c (rows.map RunEventResponse.toRunEvent)
  latestSeq : state'.latestSeq = state.latestSeq ∨ ∃ row ∈ rows, row.seq = state'.latestSeq
  le_latestSeq : state.latestSeq ≤ state'.latestSeq ∧ ∀ row ∈ rows, row.seq ≤ state'.latestSeq
  terminal : (∃ row ∈ rows, row.type.isTerminal = true ∧ state'.terminalEvent = some row) ∨
    (∀ row ∈ rows, row.type.isTerminal = false) ∧ state'.terminalEvent = state.terminalEvent
  kept : ∀ s : RunToolSource, (∃ x ∈ state.sources, x.id = s.id) → ∃ x ∈ state'.sources, x.id = s.id
  added : ∀ row ∈ rows, row.type = .toolCallSucceeded →
    ∀ s ∈ (toolSources row.payload).getD [], ∃ x ∈ state'.sources, x.id = s.id

theorem RunState.readsRows (h : state.readRows rows = some state') :
    state.ReadsRows state' rows := by
  induction rows generalizing state with
  | nil =>
    cases h
    exact {
      channel := fun c => (String.append_empty).symm
      latestSeq := .inl rfl
      le_latestSeq := ⟨le_rfl, fun _ hrow => absurd hrow List.not_mem_nil⟩
      terminal := .inr ⟨fun _ hrow => absurd hrow List.not_mem_nil, rfl⟩
      kept := fun _ hs => hs
      added := fun row hrow => by cases hrow }
  | cons row rows ih =>
    obtain ⟨mid, hmid, hrest⟩ := Option.bind_eq_some_iff.mp h
    have hrow := readsRow hmid
    have htail := ih hrest
    have hlatest := hrow.latestSeq
    refine ⟨fun c => ?_, ?_, ⟨?_, fun e he => ?_⟩, ?_, fun s hs => htail.kept s (hrow.kept s hs),
      fun e he htype s hs => ?_⟩
    · rw [htail.channel, hrow.channel, List.map_cons, channelText_cons, String.append_assoc]
    · rcases htail.latestSeq with hsame | ⟨e, he, hseq⟩
      · rcases le_total state.latestSeq row.seq with hle | hle
        · exact .inr ⟨row, List.mem_cons_self, by omega⟩
        · exact .inl (by omega)
      · exact .inr ⟨e, List.mem_cons_of_mem _ he, hseq⟩
    · have hle := htail.le_latestSeq.1
      omega
    · rcases List.mem_cons.mp he with rfl | he
      · have hle := htail.le_latestSeq.1
        omega
      · exact htail.le_latestSeq.2 e he
    · rcases htail.terminal with ⟨e, he, htype, hterminal⟩ | ⟨hnone, hterminal⟩
      · exact .inl ⟨e, List.mem_cons_of_mem _ he, htype, hterminal⟩
      · rw [hrow.terminal] at hterminal
        cases htype : row.type.isTerminal with
        | true =>
          rw [htype, if_pos rfl] at hterminal
          exact .inl ⟨row, List.mem_cons_self, htype, hterminal⟩
        | false =>
          rw [htype, if_neg Bool.false_ne_true] at hterminal
          refine .inr ⟨fun e he => ?_, hterminal⟩
          rcases List.mem_cons.mp he with rfl | he
          · exact htype
          · exact hnone e he
    · rcases List.mem_cons.mp he with rfl | he
      · exact htail.kept s (hrow.added htype s hs)
      · exact htail.added e he htype s hs

/-! ### The stream -/

/-- What reading the answer of the stream leaves in the state. -/
structure RunState.ReadsStream (state state' : RunState) (streamed : List RunEventResponse) :
    Prop where
  channel : ∀ c, state'.channel c =
    state.channel c ++ channelText c (streamed.map RunEventResponse.toRunEvent)
  latestSeq : state'.latestSeq = state.latestSeq ∨ ∃ e ∈ streamed, e.seq = state'.latestSeq
  le_latestSeq : state.latestSeq ≤ state'.latestSeq ∧ ∀ e ∈ streamed, e.seq ≤ state'.latestSeq
  sources : state'.sources = state.sources
  terminal : state'.terminalEvent = state.terminalEvent

theorem RunState.readsStream (state : RunState) (streamed : List RunEventResponse) :
    state.ReadsStream (streamed.foldl readStreamEvent state) streamed := by
  induction streamed generalizing state with
  | nil =>
    exact {
      channel := fun c => (String.append_empty).symm
      latestSeq := .inl rfl
      le_latestSeq := ⟨le_rfl, fun _ he => absurd he List.not_mem_nil⟩
      sources := rfl
      terminal := rfl }
  | cons event streamed ih =>
    have htail := ih (state.readStreamEvent event)
    have hmax : (state.readStreamEvent event).latestSeq = max state.latestSeq event.seq := rfl
    have hle := htail.le_latestSeq.1
    rw [List.foldl_cons]
    refine ⟨fun c => ?_, ?_, ⟨?_, fun e he => ?_⟩, htail.sources, htail.terminal⟩
    · have haccumulate : (state.readStreamEvent event).channel c =
          state.channel c ++ event.channelText c := Snapshot.channel_accumulate _ _ c
      rw [htail.channel, haccumulate, List.map_cons, channelText_cons, String.append_assoc]
    · rcases htail.latestSeq with hsame | ⟨e, he, hseq⟩
      · rcases le_total state.latestSeq event.seq with hlt | hlt
        · exact .inr ⟨event, List.mem_cons_self, by omega⟩
        · exact .inl (by omega)
      · exact .inr ⟨e, List.mem_cons_of_mem _ he, hseq⟩
    · omega
    · rcases List.mem_cons.mp he with rfl | he
      · omega
      · exact htail.le_latestSeq.2 e he

/-! ### The whole state -/

/-- **What the state contains.** With rows none of which is a delta, its texts are those of the
draft with the deltas of the stream appended; its sources and its terminal event are those of the
rows; and `latest_seq` is the largest number that occurs anywhere. -/
structure RunState.Assembled (state : RunState) (rows : List RunEventResponse)
    (draft : Option RunDraft) (streamed : List RunEventResponse) : Prop where
  channel : ∀ c, state.channel c = ((draft.map fun d => d.channel c).getD "") ++
    channelText c (streamed.map RunEventResponse.toRunEvent)
  latestSeq : state.latestSeq = 0 ∨ ResumePoint rows draft streamed state.latestSeq
  le_latestSeq : ∀ row ∈ rows, row.seq ≤ state.latestSeq
  draft_le_latestSeq : ∀ d ∈ draft, d.seq ≤ state.latestSeq
  answer_le_latestSeq : ∀ e ∈ streamed, e.seq ≤ state.latestSeq
  terminal : ∀ t ∈ rows, t.type.isTerminal = true →
    ∃ t' ∈ rows, t'.type.isTerminal = true ∧ state.terminalEvent = some t'
  sources : ∀ row ∈ rows, row.type = .toolCallSucceeded →
    ∀ s ∈ (toolSources row.payload).getD [], ∃ x ∈ state.sources, x.id = s.id

theorem latestPersistedDeltaSeq_eq_zero (h : ∀ row ∈ rows, row.type.isDelta = false) :
    latestPersistedDeltaSeq rows = 0 := by
  have hfold : ∀ n,
      rows.foldl (fun n event => if event.delta.isSome then event.seq else n) n = n := by
    induction rows with
    | nil => exact fun _ => rfl
    | cons row rows ih =>
      intro n
      have hnone : row.delta = none := by
        have hdelta := h row List.mem_cons_self
        unfold RunEvent.delta RunEvent.deltaChannel
        cases htype : row.type <;> first | rfl | (rw [htype] at hdelta; cases hdelta)
      rw [List.foldl_cons, hnone]
      exact ih (fun row' hrow => h row' (List.mem_cons_of_mem _ hrow)) n
  exact hfold 0

/-- Without deltas among the rows, the draft is always used. -/
theorem usedDraft_eq (h : ∀ row ∈ rows, row.type.isDelta = false) :
    usedDraft rows draft = draft := by
  unfold usedDraft
  rw [latestPersistedDeltaSeq_eq_zero h]
  cases draft <;> simp

theorem streamAfterSeq_eq (h : ∀ row ∈ rows, row.type.isDelta = false) :
    streamAfterSeq rows draft = (draft.map fun d => d.seq).getD (latestPersistedDeltaSeq rows) := by
  rw [streamAfterSeq, usedDraft_eq h]

/-- Rows that are no deltas have no text. -/
theorem channelText_rows_eq_empty (h : ∀ row ∈ rows, row.type.isDelta = false) (c : Channel) :
    channelText c (rows.map RunEventResponse.toRunEvent) = "" := by
  induction rows with
  | nil => rfl
  | cons row rows ih =>
    have htext : row.carriesText = false := by
      by_contra hcarries
      have hdelta := RunEvent.isDelta_of_carriesText (by simpa using hcarries)
      rw [h row List.mem_cons_self] at hdelta
      cases hdelta
    rw [List.map_cons, channelText_cons, RunEvent.channelText_eq_empty htext,
      ih fun row' hrow => h row' (List.mem_cons_of_mem _ hrow)]
    rfl

theorem assembled_getOwnedRunState (h : ∀ row ∈ rows, row.type.isDelta = false)
    (hstate : getOwnedRunState status rows draft streamed = some state) :
    state.Assembled rows draft streamed := by
  unfold getOwnedRunState at hstate
  obtain ⟨read, hread, rfl⟩ := Option.map_eq_some_iff.mp hstate
  have hrows := RunState.readsRows hread
  -- the rows carry no text: it comes from the draft and the stream
  have htexts : ∀ c, read.channel c = "" := by
    intro c
    rw [hrows.channel, channelText_rows_eq_empty h]
    cases c <;> rfl
  have hlatest : read.latestSeq = 0 ∨ ∃ row ∈ rows, row.seq = read.latestSeq := hrows.latestSeq
  have hterminal : ∀ t ∈ rows, t.type.isTerminal = true →
      ∃ t' ∈ rows, t'.type.isTerminal = true ∧ read.terminalEvent = some t' := by
    intro t ht htype
    rcases hrows.terminal with ⟨t', ht', htype', hevent⟩ | ⟨hnone, -⟩
    · exact ⟨t', ht', htype', hevent⟩
    · rw [hnone t ht] at htype
      cases htype
  rw [usedDraft_eq h]
  -- without a used draft the stream starts empty, with one above its number
  cases draft with
  | none =>
    have hstream := read.readsStream streamed
    refine ⟨fun c => ?_, ?_, fun row hrow => (hrows.le_latestSeq.2 row hrow).trans
      hstream.le_latestSeq.1, fun d hd => (by cases hd), hstream.le_latestSeq.2,
      fun t ht htype => ?_, fun row hrow htype s hs => ?_⟩
    · exact (hstream.channel c).trans (by rw [htexts c]; rfl)
    · rcases hstream.latestSeq with hsame | hevent
      · exact hlatest.imp (fun hzero => hsame.trans hzero) fun ⟨row, hrow, hseq⟩ =>
          .inl ⟨row, hrow, hseq.trans hsame.symm⟩
      · exact .inr (.inr (.inr hevent))
    · obtain ⟨t', ht', htype', hevent⟩ := hterminal t ht htype
      exact ⟨t', ht', htype', hstream.terminal.trans hevent⟩
    · have hadded := hrows.added row hrow htype s hs
      rwa [← hstream.sources] at hadded
  | some d =>
    have hstream := RunState.readsStream
      { read with toSnapshot := d.toSnapshot, latestSeq := max read.latestSeq d.seq } streamed
    have hle := hstream.le_latestSeq.1
    dsimp only at hle
    refine ⟨hstream.channel, ?_, fun row hrow => ?_, fun d' hd' => ?_, hstream.le_latestSeq.2,
      fun t ht htype => ?_, fun row hrow htype s hs => ?_⟩
    · rcases hstream.latestSeq with hsame | hevent
      · dsimp only at hsame
        rcases le_total read.latestSeq d.seq with hlt | hlt
        · refine .inr (.inr (.inl ⟨d, ?_, ?_⟩))
          · rw [usedDraft_eq h]
            rfl
          · exact (hsame.trans (max_eq_right hlt)).symm
        · exact hlatest.imp (fun hzero => (hsame.trans (max_eq_left hlt)).trans hzero)
            fun ⟨row, hrow, hseq⟩ =>
              .inl ⟨row, hrow, hseq.trans (hsame.trans (max_eq_left hlt)).symm⟩
      · exact .inr (.inr (.inr hevent))
    · have hrowle := hrows.le_latestSeq.2 row hrow
      dsimp only
      omega
    · obtain rfl : d = d' := Option.some.inj hd'
      dsimp only
      omega
    · obtain ⟨t', ht', htype', hevent⟩ := hterminal t ht htype
      exact ⟨t', ht', htype', hstream.terminal.trans hevent⟩
    · have hadded := hrows.added row hrow htype s hs
      rwa [← hstream.sources] at hadded

end RunState

end IChat
