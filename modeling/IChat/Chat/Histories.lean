import IChat.Chat.Recordings
import IChat.Runs.RouteReplay

/-!
# The histories that runs are given

In tables whose threads are in order, the history of an active run can be computed: it is the turns
of the user messages shown before the run's own, in order, and the input of the run's own message.
A turn is the recorded input of its message, and behind it what the message's current run has
answered, if it has succeeded.

The loop of `_build_history` visits the assistant messages too. Each of them is skipped, because the
question that it answers has been visited before it.
-/

namespace IChat.Chat

open Files Conversations Transcript ConversationTables

variable {loads : String → Option Json} {asks : RunRequest → Prop} {u : Url.UnicodeData}
  {db db' : ConversationTables}
  {run target : RunRow} {m : MessageRow}

/-! ### Turns -/

/-- What a mode of the replay keeps of the output of a run. -/
def keptOutput (mode : ReplayMode) (output : List Message) : List Message :=
  match mode with
  | .full => output
  | .portable =>
    match output.getLast? with
    | none => []
    | some final => if textBlocks final = [] then [] else [⟨.assistant, textBlocks final⟩]
  | .input => []

theorem exactUserInput_recorded {input : List ContentBlock} {output : List Message}
    (hportable : ∀ block ∈ input, block.isPortable = true) (hne : input ≠ []) :
    exactUserInput (⟨.user, input⟩ :: output) = [⟨.user, input⟩] := by
  have hfilter : input.filter ContentBlock.isPortable = input := List.filter_eq_self.mpr hportable
  simp only [exactUserInput, hfilter, ne_eq, not_true_eq_false, false_or, if_neg hne]

theorem portableTurn_recorded {input : List ContentBlock} {output : List Message} {final : Message}
    (hportable : ∀ block ∈ input, block.isPortable = true) (hne : input ≠ [])
    (hfinal : final ∈ output.getLast?) (hrole : final.role = .assistant) :
    portableTurn (⟨.user, input⟩ :: output) = ⟨.user, input⟩ :: keptOutput .portable output := by
  obtain ⟨before, rfl⟩ := List.getLast?_eq_some_iff.mp hfinal
  have hfind : (⟨.user, input⟩ :: (before ++ [final])).reverse.find?
      (fun message : Message => message.role = .assistant) = some final := by
    rw [← List.cons_append, List.reverse_append, List.reverse_singleton, List.singleton_append,
      List.find?_cons_of_pos (by simpa using hrole)]
  simp only [portableTurn, hfind, exactUserInput_recorded hportable hne, keptOutput,
    List.getLast?_concat]
  split_ifs <;> rfl

/-- The text of the portable blocks is the whole text. -/
theorem text_textBlocks (message : Message) (role : Role) :
    Message.text ⟨role, textBlocks message⟩ = message.text := by
  obtain ⟨_, blocks⟩ := message
  simp only [Message.text, textBlocks]
  induction blocks with
  | nil => rfl
  | cons block blocks ih =>
    rw [List.filter_cons]
    split_ifs with hkept
    · cases block with
      | text => simp only [List.filterMap_cons, String.join_cons, ih]
      | _ => cases hkept
    · cases block with
      | text text =>
        have hempty : text = "" := by simpa using hkept
        simp only [List.filterMap_cons, String.join_cons, ih, hempty, String.empty_append]
      | _ => simp only [List.filterMap_cons, ih]

/-! ### The turn of a message -/

/-- The tables' threads are in order, and so is what their runs record. -/
structure WellFormed (loads : String → Option Json) (db : ConversationTables) : Prop where
  ordered : Ordered db
  threads : Threads db
  recordings : Recordings loads db

theorem TablesStep.wellFormed (h : TablesStep loads asks db db') (hdb : WellFormed loads db) :
    WellFormed loads db' := by
  obtain ⟨hordered, hthreads⟩ := h.threads hdb.ordered hdb.threads
  exact ⟨hordered, hthreads, h.recordings hdb.recordings⟩

theorem wellFormed_empty : WellFormed loads .empty where
  ordered := ⟨fun _ hm => absurd hm Table.not_mem_empty, fun _ hm => absurd hm Table.not_mem_empty⟩
  threads := ⟨fun _ hm => absurd hm.1 Table.not_mem_empty,
    fun _ ha => absurd ha.1 Table.not_mem_empty, fun _ _ hm => absurd hm.1 Table.not_mem_empty,
    fun _ _ ha => absurd ha.1 Table.not_mem_empty, fun _ hr => absurd hr Table.not_mem_empty⟩
  recordings := ⟨fun _ hr => absurd hr Table.not_mem_empty,
    fun _ hr => absurd hr Table.not_mem_empty, fun _ hm => absurd hm Table.not_mem_empty,
    fun _ hr => absurd hr Table.not_mem_empty, fun _ ha => absurd ha Table.not_mem_empty⟩

/-- The mode in which the current run of a message is replayed. -/
def replayMode (u : Url.UnicodeData) (db : ConversationTables) (rows : List MessageRow)
    (target : RunRow) (runId : ℕ) : ReplayMode :=
  db.resolveReplayMode u (priorRunIds target.userMessageId rows) target runId

/-- The turn of a recorded run, as far as a mode lets it through. -/
def recordedTurn (loads : String → Option Json) (mode : ReplayMode) (run : RunRow) :
    List Message :=
  ⟨.user, recordedInput loads run⟩ ::
    if run.status = .succeeded then keptOutput mode (recordedOutput loads run) else []

/-- What is loaded for a run is its recorded turn. -/
theorem loadRunTranscriptForHistory_recorded {mode : ReplayMode} (hmem : run ∈ db.runs)
    (hrecorded : Recorded loads run) :
    db.loadRunTranscriptForHistory loads run.id mode = .ok (recordedTurn loads mode run) := by
  obtain ⟨content, files, hinput⟩ := hrecorded.input
  have hexact : exactUserInput (⟨.user, recordedInput loads run⟩ :: recordedOutput loads run) = _ :=
    exactUserInput_recorded hinput.portable hinput.ne_nil
  rw [loadRunTranscriptForHistory, Table.get?_key hmem]
  simp only [hrecorded.loaded]
  change (if run.status = .succeeded ∧ mode = .full then _ else _) = _
  unfold recordedTurn
  by_cases hstatus : run.status = .succeeded
  · cases mode with
    | full => simp [hstatus, keptOutput]
    | portable =>
      obtain ⟨final, hfinal, hrole⟩ := hrecorded.succeeded hstatus
      simp [hstatus, portableTurn_recorded hinput.portable hinput.ne_nil hfinal hrole]
    | input => simp [hstatus, hexact, keptOutput]
  · simp [hstatus, hexact]

/-! ### The loop -/

/-- The turn of a user message in a history. -/
def turnMessages (loads : String → Option Json) (u : Url.UnicodeData) (db : ConversationTables)
    (rows : List MessageRow) (target : RunRow) (m : MessageRow) : List Message :=
  match m.runId.bind db.runs.get? with
  | none => []
  | some run => recordedTurn loads (replayMode u db rows target run.id) run

theorem turnMessages_eq {rows : List MessageRow} (h : CurrentRun db m run) :
    turnMessages loads u db rows target m =
      recordedTurn loads (replayMode u db rows target run.id) run := by
  rw [turnMessages, h.runId, Option.bind_some, Table.get?_key h.mem]

/-- The rows of a history: all that is shown of a conversation up to the message of a run, in
order. -/
structure HistoryRows (db : ConversationTables) (target : RunRow) (t : MessageRow)
    (rows : List MessageRow) : Prop where
  shown : ∀ m ∈ rows, ShownIn db m
  here : ∀ m ∈ rows, m.conversationId = t.conversationId
  last : ∀ m ∈ rows, m.position ≤ t.position
  closed : ∀ m ∈ rows, ∀ x, ShownIn db x → x.conversationId = m.conversationId →
    x.position < m.position → x ∈ rows
  sorted : rows.Pairwise fun m m' => m.position < m'.position
  current : CurrentRun db t target

/-- What stands before a row of a sorted list is what is smaller. -/
private theorem mem_of_position_lt {visited left : List MessageRow} {row m : MessageRow}
    (hsorted : (visited ++ row :: left).Pairwise fun m m' => m.position < m'.position)
    (hm : m ∈ visited ++ row :: left) (hlt : m.position < row.position) : m ∈ visited := by
  rcases List.mem_append.mp hm with hvisited | hrest
  · exact hvisited
  · have htail := (List.pairwise_append.mp hsorted).2.1
    rcases List.mem_cons.mp hrest with rfl | hleft
    · exact absurd hlt (lt_irrefl _)
    · have hgt := (List.pairwise_cons.mp htail).1 m hleft
      omega

/-- A user message is replayed from its current run; the run's own message is no exception. -/
theorem rowTranscript_recorded {rows : List MessageRow} {t : MessageRow}
    (hwf : WellFormed loads db) (hrows : HistoryRows db target t rows) (hm : ShownIn db m)
    (hcurrent : CurrentRun db m run) (htarget : ShownIn db t) :
    db.rowTranscript loads u (priorRunIds target.userMessageId rows) target m =
      .ok (recordedTurn loads (replayMode u db rows target run.id) run) := by
  have hrun : replayRunId target m = some run.id := by
    unfold replayRunId
    split_ifs with hid
    · have heq : m = t := Table.eq_of_key_eq hm.1 htarget.1
        (hid.trans hrows.current.userMessageId)
      subst heq
      rw [hcurrent.run_eq hrows.current]
    · exact hcurrent.runId
  rw [rowTranscript, hrun]
  exact loadRunTranscriptForHistory_recorded hcurrent.mem (hwf.recordings.recorded run hcurrent.mem)

/-- **The loop of `_build_history`.** The history is made of the turns of the user messages. -/
theorem buildHistory_eq {rows : List MessageRow} {t : MessageRow} (hwf : WellFormed loads db)
    (hrows : HistoryRows db target t rows) (htarget : ShownIn db t) :
    db.buildHistory loads u rows target =
      .ok ((rows.filter fun m => m.role = .user).flatMap
        (turnMessages loads u db rows target)) := by
  -- the rows are cut into those that were visited and those that are left
  let P (left : List MessageRow) (state : HistoryState) : Prop :=
    ∃ visited, rows = visited ++ left ∧
      state.messages = (visited.filter fun m => m.role = .user).flatMap
        (turnMessages loads u db rows target) ∧
      (∀ m ∈ visited, m.role = .user → m.id ≠ target.userMessageId → m.runId ≠ none →
        ∀ a ∈ rows, a.role = .assistant → a.runId = m.runId → a.id ∈ state.skippedMessageIds) ∧
      ∀ id ∈ state.skippedMessageIds, ∃ a ∈ rows, a.id = id ∧ a.role = .assistant
  have hstep : ∀ row left state, P (row :: left) state →
      ∃ state', db.historyRow loads u rows target state row = .ok state' ∧ P left state' := by
    rintro row left state ⟨visited, hsplit, hmessages, hskipped, hassistant⟩
    have hmem : row ∈ rows := by simp [hsplit]
    have hshown := hrows.shown row hmem
    have hsplit' : rows = (visited ++ [row]) ++ left := by simpa using hsplit
    by_cases hskip : row.id ∈ state.skippedMessageIds
    · -- a skipped row is the assistant's
      obtain ⟨a, ha, hid, hrole⟩ := hassistant row.id hskip
      have heq : a = row := Table.eq_of_key_eq (hrows.shown a ha).1 hshown.1 hid
      subst heq
      refine ⟨state, if_pos hskip, visited ++ [a], hsplit', ?_, fun m hm hrole' => ?_, hassistant⟩
      · simp [hmessages, hrole]
      · rcases List.mem_append.mp hm with hm | hm
        · exact hskipped m hm hrole'
        · rw [List.mem_singleton.mp hm, hrole] at hrole'
          cases hrole'
    · by_cases hrole : row.role = .user
      · obtain ⟨run, hcurrent⟩ := hwf.threads.current row hshown hrole
        let transcript := recordedTurn loads (replayMode u db rows target run.id) run
        have htranscript : db.rowTranscript loads u (priorRunIds target.userMessageId rows) target
            row = .ok transcript := rowTranscript_recorded hwf hrows hshown hcurrent htarget
        have hturn : userTurn target row transcript = turnMessages loads u db rows target row := by
          rw [turnMessages_eq hcurrent]
          exact if_pos ⟨_, rfl, rfl⟩
        let state' : HistoryState :=
          { messages := state.messages ++ userTurn target row transcript
            skippedMessageIds := state.skippedMessageIds ++
              if row.id ≠ target.userMessageId ∧ row.runId ≠ none ∧ transcript ≠ [] then
                materialized rows row
              else [] }
        refine ⟨state', ?_, visited ++ [row], hsplit', ?_,
          fun m hm hrole' hne hrunId a ha hassist hsame => ?_, fun id hid => ?_⟩
        · rw [historyRow, if_neg hskip, if_neg (not_not.mpr hrole)]
          simp only [htranscript]
          rfl
        · change state.messages ++ userTurn target row transcript = _
          simp [hmessages, hrole, hturn]
        · rcases List.mem_append.mp hm with hm | hm
          · exact List.mem_append_left _ (hskipped m hm hrole' hne hrunId a ha hassist hsame)
          · obtain rfl := List.mem_singleton.mp hm
            refine List.mem_append_right _ ?_
            rw [if_pos ⟨hne, hrunId, List.cons_ne_nil _ _⟩]
            refine List.mem_map_of_mem (List.mem_filter.mpr
              ⟨ha, decide_eq_true ⟨hsame, ?_, hassist⟩⟩)
            intro hid
            obtain rfl := Table.eq_of_key_eq (hrows.shown a ha).1 hshown.1 hid
            rw [hrole'] at hassist
            cases hassist
        · rcases List.mem_append.mp hid with hold | hnew
          · exact hassistant id hold
          · split_ifs at hnew
            · obtain ⟨a, ha, rfl⟩ := List.mem_map.mp hnew
              have hcond := (List.mem_filter.mp ha).2
              exact ⟨a, (List.mem_filter.mp ha).1, rfl, (of_decide_eq_true hcond).2.2⟩
            · cases hnew
      · -- the question that the row answers has been visited
        have hassist : row.role = .assistant := by
          have hsystem := hwf.ordered.role row hshown.1
          cases hcase : row.role <;> simp_all
        obtain ⟨m, run, hans⟩ := hwf.threads.answered row hshown hassist
        have hin : m ∈ rows :=
          hrows.closed row hmem m hans.shown hans.conversationId.symm hans.after
        have hvisited : m ∈ visited :=
          mem_of_position_lt (hsplit ▸ hrows.sorted) (hsplit ▸ hin) hans.after
        refine absurd (hskipped m hvisited hans.user ?_ ?_ row hmem hassist ?_) hskip
        · intro hid
          have heq : m = t := Table.eq_of_key_eq hans.shown.1 htarget.1
            (hid.trans hrows.current.userMessageId)
          have hle := hrows.last row hmem
          have hlt := hans.after
          rw [heq] at hlt
          omega
        · rw [hans.current.runId]
          nofun
        · rw [hans.runId, hans.current.runId]
  have hinit : P rows ⟨[], []⟩ := ⟨[], rfl, rfl, by simp, by simp⟩
  obtain ⟨state, hfold, visited, hall, hmessages, -, -⟩ := Except.foldlM_progress hstep hinit
  rw [List.append_nil] at hall
  rw [buildHistory, hfold, ← hall] at *
  rw [← hmessages]
  rfl

end IChat.Chat
