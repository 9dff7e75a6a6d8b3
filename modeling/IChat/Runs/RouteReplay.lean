import IChat.General.Lists
import IChat.Runs.History

/-!
# Which turns are replayed in full

The backward scan of `_resolve_replay_modes` and the projection of `_build_history` are written
separately. `scanFullReplay_eq` says what the scan finds: among the succeeded runs, from the latest
one back, those before the first of another route. `exists_turns` cuts a history into the turns of
its rows, and `isPortable_of_turnOf` says what a turn contains whose run the scan did not find.
`routeAffineReplay` puts them together.
-/

namespace IChat.Conversations

open Transcript

namespace ConversationTables

variable {loads : String → Option Json} {u : Url.UnicodeData} {db : ConversationTables}
  {target : RunRow} {row : MessageRow} {rows : List MessageRow} {messages : List Message}

/-! ### The scan -/

/-- A run whose route is the target's. A run without a route has no other's. -/
def SameRoute (u : Url.UnicodeData) (db : ConversationTables) (target : RunRow) (runId : ℕ) :
    Prop :=
  ∃ affinity ∈ routeAffinity u target, db.HasRoute u affinity runId

/-- The scan keeps the succeeded runs up to the first one of another route. -/
theorem scanFullReplay_eq (affinity : RouteAffinity) (runIds : List ℕ) :
    db.scanFullReplay u affinity runIds =
      (runIds.filter fun id => db.Succeeded id).takeWhile fun id => db.HasRoute u affinity id := by
  induction runIds with
  | nil => rfl
  | cons runId runIds ih =>
    rw [scanFullReplay]
    cases hrun : db.runs.get? runId with
    | none => simp [Succeeded, hrun, ih]
    | some run =>
      by_cases hstatus : run.status = .succeeded
      · by_cases hroute : routeAffinity u run = some affinity
        · simp [Succeeded, HasRoute, hrun, hstatus, hroute, ih]
        · simp [Succeeded, HasRoute, hrun, hstatus, hroute]
      · simp [Succeeded, hrun, hstatus, ih]

/-- **The suffix.** The runs that are replayed in full are the longest suffix of the succeeded
prior runs with the target's route. -/
theorem exists_fullReplaySuffix (u : Url.UnicodeData) (db : ConversationTables) (target : RunRow)
    (priorRunIds : List ℕ) :
    ∃ older full, (priorRunIds.filter fun id => db.Succeeded id) = older ++ full ∧
      (∀ id, id ∈ db.fullReplayIds u priorRunIds target ↔ id ∈ full) ∧
      (∀ id ∈ full, db.SameRoute u target id) ∧
      ∀ id ∈ older.getLast?, ¬db.SameRoute u target id := by
  unfold fullReplayIds SameRoute
  cases haffinity : routeAffinity u target with
  | none => exact ⟨_, [], (List.append_nil _).symm, by simp, by simp, by simp⟩
  | some affinity =>
    let sameRoute (id : ℕ) : Bool := db.HasRoute u affinity id
    let succeeded := priorRunIds.filter fun id => db.Succeeded id
    refine ⟨succeeded.rdropWhile sameRoute, succeeded.rtakeWhile sameRoute,
      List.rdropWhile_append_rtakeWhile.symm, fun id => ?_, fun id hid => ?_, fun id hid => ?_⟩
    · simp only [scanFullReplay_eq, List.filter_reverse, List.rtakeWhile, List.mem_reverse]
      exact Iff.rfl
    · have hroute : sameRoute id = true := List.mem_rtakeWhile_imp hid
      exact ⟨affinity, rfl, of_decide_eq_true hroute⟩
    · have hother : sameRoute id = false := List.not_of_mem_getLast?_rdropWhile hid
      rintro ⟨other, hsome, hroute⟩
      cases hsome
      exact of_decide_eq_false hother hroute

/-! ### The turns of a history -/

/-- What a row of the history adds to it, if it is not skipped. -/
def turnOf (loads : String → Option Json) (u : Url.UnicodeData) (db : ConversationTables)
    (rows : List MessageRow) (target : RunRow) (row : MessageRow) : Except String (List Message) :=
  if row.role ≠ .user then .ok [⟨row.role, [.text row.content]⟩]
  else do
    .ok (userTurn target row
      (← db.rowTranscript loads u (priorRunIds target.userMessageId rows) target row))

/-- A row is skipped, or its turn is appended. -/
theorem historyRow_eq_ok {state state' : HistoryState}
    (h : db.historyRow loads u rows target state row = .ok state') :
    row.id ∈ state.skippedMessageIds ∧ state' = state ∨
      ∃ turn, db.turnOf loads u rows target row = .ok turn ∧
        state'.messages = state.messages ++ turn ∧
        ∀ id ∈ state'.skippedMessageIds,
          id ∈ state.skippedMessageIds ∨ id ∈ materialized rows row := by
  unfold historyRow at h
  unfold turnOf
  split_ifs at h with hskipped hrole
  · cases h
    exact .inl ⟨hskipped, rfl⟩
  · cases h
    exact .inr ⟨_, if_pos hrole, rfl, fun id hid => .inl hid⟩
  · obtain ⟨transcript, htranscript, hstate⟩ := bind_eq_ok_iff.mp h
    cases hstate
    refine .inr ⟨userTurn target row transcript, ?_, rfl, fun id hid => ?_⟩
    · rw [if_neg hrole, htranscript]
      rfl
    · rcases List.mem_append.mp hid with hold | hnew
      · exact .inl hold
      · split_ifs at hnew
        · exact .inr hnew
        · cases hnew

/-- **Turns.** A history is what its rows add to it, in their order; no user message is skipped. -/
theorem exists_turns (hnodup : (rows.map MessageRow.id).Nodup)
    (h : db.buildHistory loads u rows target = .ok messages) :
    ∃ turns : List (MessageRow × List Message), messages = turns.flatMap Prod.snd ∧
      (turns.map Prod.fst).Sublist rows ∧
      (∀ row ∈ rows, row.role = .user → row ∈ turns.map Prod.fst) ∧
      ∀ turn ∈ turns, db.turnOf loads u rows target turn.1 = .ok turn.2 := by
  obtain ⟨state, hfold, hmessages⟩ := bind_eq_ok_iff.mp h
  cases hmessages
  -- the rows are cut into those that were visited and those that are left
  let P (left : List MessageRow) (state : HistoryState) : Prop :=
    ∃ (visited : List MessageRow) (turns : List (MessageRow × List Message)),
      rows = visited ++ left ∧ state.messages = turns.flatMap Prod.snd ∧
      (turns.map Prod.fst).Sublist visited ∧
      (∀ row ∈ visited, row.role = .user → row ∈ turns.map Prod.fst) ∧
      (∀ turn ∈ turns, db.turnOf loads u rows target turn.1 = .ok turn.2) ∧
      ∀ id ∈ state.skippedMessageIds, ∃ row ∈ rows, row.id = id ∧ row.role = .assistant
  have hstep : ∀ row left state state', P (row :: left) state →
      db.historyRow loads u rows target state row = .ok state' → P left state' := by
    rintro row left state state' ⟨visited, turns, hrows, hmsgs, hsub, huser, hturns, hskip⟩ hrow
    have hsplit : rows = (visited ++ [row]) ++ left := by simpa using hrows
    have hmem : row ∈ rows := by simp [hrows]
    rcases historyRow_eq_ok hrow with ⟨hskipped, rfl⟩ | ⟨turn, hturn, hmsgs', hskip'⟩
    · refine ⟨visited ++ [row], turns, hsplit, hmsgs, hsub.trans (List.sublist_append_left _ _),
        fun row' hrow' hrole => ?_, hturns, hskip⟩
      rcases List.mem_append.mp hrow' with hold | hnew
      · exact huser row' hold hrole
      · -- the skipped rows are the assistant's
        obtain rfl := List.mem_singleton.mp hnew
        obtain ⟨other, hother, hid, hassistant⟩ := hskip _ hskipped
        have heq : other = row' := List.inj_on_of_nodup_map hnodup hother hmem hid
        rw [← heq, hassistant] at hrole
        cases hrole
    · refine ⟨visited ++ [row], turns ++ [(row, turn)], hsplit, ?_, ?_, fun row' hrow' hrole => ?_,
        fun turn' hturn' => ?_, fun id hid => ?_⟩
      · simp [hmsgs', hmsgs]
      · rw [List.map_append]
        exact hsub.append (List.Sublist.refl _)
      · rw [List.map_append, List.mem_append]
        rcases List.mem_append.mp hrow' with hold | hnew
        · exact .inl (huser row' hold hrole)
        · exact .inr (by simpa using hnew)
      · rcases List.mem_append.mp hturn' with hold | hnew
        · exact hturns turn' hold
        · rw [List.mem_singleton.mp hnew]
          exact hturn
      · rcases hskip' id hid with hold | hnew
        · exact hskip id hold
        · obtain ⟨other, hother, rfl⟩ := List.mem_map.mp hnew
          have hcond := (List.mem_filter.mp hother).2
          exact ⟨other, (List.mem_filter.mp hother).1, rfl, (of_decide_eq_true hcond).2.2⟩
  have hinit : P rows ⟨[], []⟩ := ⟨[], [], rfl, rfl, List.Sublist.refl _, by simp, by simp, by simp⟩
  obtain ⟨visited, turns, hrows, hmsgs, hsub, huser, hturns, -⟩ :=
    Except.foldlM_induction hstep hinit hfold
  rw [List.append_nil] at hrows
  exact ⟨turns, hmsgs, hrows ▸ hsub, fun row hrow => huser row (hrows ▸ hrow), hturns⟩

/-! ### What a turn contains -/

theorem isPortable_userText (text : String) : (userText text).IsPortable := by
  intro block hblock
  rw [List.mem_singleton.mp hblock]
  rfl

theorem isPortable_exactUserInput {transcript : List Message} {message : Message}
    (h : message ∈ exactUserInput transcript) : message.IsPortable := by
  cases transcript with
  | nil => cases h
  | cons =>
    simp only [exactUserInput] at h
    split_ifs at h
    · cases h
    · rw [List.mem_singleton.mp h]
      intro block hblock
      exact (List.mem_filter.mp hblock).2

theorem isPortable_portableTurn {transcript : List Message} {message : Message}
    (h : message ∈ portableTurn transcript) : message.IsPortable := by
  unfold portableTurn at h
  split at h
  · exact isPortable_exactUserInput h
  · split_ifs at h
    · exact isPortable_exactUserInput h
    · rcases List.mem_append.mp h with hinput | hanswer
      · exact isPortable_exactUserInput hinput
      · rw [List.mem_singleton.mp hanswer]
        intro block hblock
        have htext := (List.mem_filter.mp hblock).2
        cases block <;> simp_all [ContentBlock.isPortable]

/-- A run that is not replayed in full lends its turn portable blocks only. -/
theorem isPortable_of_loadRunTranscript {runId : ℕ} {mode : ReplayMode} {transcript : List Message}
    (hmode : mode ≠ .full)
    (h : db.loadRunTranscriptForHistory loads runId mode = .ok transcript) :
    ∀ message ∈ transcript, message.IsPortable := by
  unfold loadRunTranscriptForHistory at h
  split at h
  · cases h
    simp
  · obtain ⟨stored, -, hresult⟩ := bind_eq_ok_iff.mp h
    split_ifs at hresult with hfull
    · exact absurd hfull.2 hmode
    · cases hresult
      exact fun message => isPortable_portableTurn
    · cases hresult
      exact fun message => isPortable_exactUserInput

/-- **Projection.** The turn of a row whose run the scan did not find has portable blocks only,
whether or not its transcript starts with the user input. -/
theorem isPortable_of_turnOf {turn : List Message}
    (h : db.turnOf loads u rows target row = .ok turn)
    (hscan : row.role = .user → ∀ id ∈ replayRunId target row,
      id ∉ db.fullReplayIds u (priorRunIds target.userMessageId rows) target) :
    ∀ message ∈ turn, message.IsPortable := by
  unfold turnOf at h
  split_ifs at h with hrole
  · cases h
    intro message hmessage block hblock
    rw [List.mem_singleton.mp hmessage] at hblock
    rw [List.mem_singleton.mp hblock]
    rfl
  · push Not at hrole
    obtain ⟨transcript, htranscript, hturn⟩ := bind_eq_ok_iff.mp h
    cases hturn
    have hportable : ∀ message ∈ transcript, message.IsPortable := by
      unfold rowTranscript at htranscript
      split at htranscript
      · cases htranscript
        simp
      · next runId hrunId =>
        refine isPortable_of_loadRunTranscript ?_ htranscript
        have hnot := hscan hrole runId hrunId
        unfold resolveReplayMode
        split_ifs <;> nofun
    intro message hmessage
    unfold userTurn at hmessage
    split_ifs at hmessage
    · exact hportable message hmessage
    · rcases List.mem_cons.mp hmessage with rfl | hrest
      · exact isPortable_userText _
      · exact hportable message hrest
    · rw [List.mem_singleton.mp hmessage]
      exact isPortable_userText _

/-- A prior row whose run the scan found keeps the whole transcript of the run. -/
theorem transcript_suffix_of_turnOf {turn : List Message} {runId : ℕ}
    (h : db.turnOf loads u rows target row = .ok turn) (hrole : row.role = .user)
    (hprior : row.id ≠ target.userMessageId) (hrun : row.runId = some runId)
    (hscan : runId ∈ db.fullReplayIds u (priorRunIds target.userMessageId rows) target) :
    ∃ run transcript, db.runs.get? runId = some run ∧
      loadTranscript loads run.transcript = .ok transcript ∧
      (turn = transcript ∨ turn = userText row.content :: transcript) := by
  obtain ⟨older, full, hsplit, hmem, -, -⟩ :=
    exists_fullReplaySuffix u db target (priorRunIds target.userMessageId rows)
  have hfilter : runId ∈ (priorRunIds target.userMessageId rows).filter fun id =>
    db.Succeeded id := by
    rw [hsplit]
    exact List.mem_append_right _ ((hmem runId).mp hscan)
  obtain ⟨hlisted, hsucceeded⟩ := List.mem_filter.mp hfilter
  have hmode : db.resolveReplayMode u (priorRunIds target.userMessageId rows) target
    runId = .full := by
    rw [resolveReplayMode, if_neg, if_pos hscan]
    push Not
    exact ⟨hlisted, of_decide_eq_true hsucceeded⟩
  obtain ⟨run, hget, hstatus⟩ := of_decide_eq_true hsucceeded
  unfold turnOf at h
  rw [if_neg (not_not.mpr hrole)] at h
  obtain ⟨transcript, htranscript, hturn⟩ := bind_eq_ok_iff.mp h
  cases hturn
  rw [rowTranscript, replayRunId, if_neg hprior, hrun] at htranscript
  simp only [hmode, loadRunTranscriptForHistory, Option.mem_def.mp hget, hstatus, and_self,
    if_true] at htranscript
  obtain ⟨stored, hstored, hsame⟩ := bind_eq_ok_iff.mp htranscript
  cases hsame
  refine ⟨run, transcript, hget, hstored, ?_⟩
  unfold userTurn
  split_ifs
  · exact .inl rfl
  · exact .inr rfl

/-! ### The law -/

theorem nodup_visible (conversationId : ℕ) :
    ((db.visible conversationId).map MessageRow.id).Nodup := by
  have hperm := List.perm_insertionSort (fun a b : MessageRow => a.position ≤ b.position)
    (db.messages.rows.filter fun m => m.conversationId = conversationId ∧ m.archivedAt = none)
  refine (hperm.map MessageRow.id).nodup_iff.mpr ?_
  exact db.messages.nodup.sublist (List.filter_sublist.map _)

theorem nodup_historyRows (run : RunRow) (message : MessageRow) :
    ((db.historyRows run message).map MessageRow.id).Nodup :=
  (nodup_visible run.conversationId).sublist (List.filter_sublist.map _)

/-- The succeeded runs of the user messages before a run's own, in order. -/
def succeededPriorRuns (db : ConversationTables) (run : RunRow) (message : MessageRow) : List ℕ :=
  (priorRunIds run.userMessageId (db.historyRows run message)).filter fun id => db.Succeeded id

theorem nodup_succeededPriorRuns (run : RunRow) (message : MessageRow) :
    (db.succeededPriorRuns run message).Nodup :=
  (List.nodup_eraseDups _).filter _

/-- **Route-affine replay.** The succeeded prior runs of a history end with the longest suffix of
runs of the target's route. The prior turns of those runs keep the whole transcript; every other
turn has portable blocks only. A run before a run of another route is not in the suffix. -/
theorem routeAffineReplay {runId : ℕ} {history : List Message}
    (h : db.loadConversationHistory loads u runId = .ok history) :
    ∃ run message, db.runs.get? runId = some run ∧
      db.messages.get? run.userMessageId = some message ∧
      ∃ older full, db.succeededPriorRuns run message = older ++ full ∧
        (∀ id ∈ full, db.SameRoute u run id) ∧
        (∀ id ∈ older.getLast?, ¬db.SameRoute u run id) ∧
        (∀ before mid after, db.succeededPriorRuns run message = before ++ mid :: after →
          ¬db.SameRoute u run mid → ∀ id ∈ before, id ∉ full) ∧
        ∃ turns : List (MessageRow × List Message), history = turns.flatMap Prod.snd ∧
          (turns.map Prod.fst).Sublist (db.historyRows run message) ∧
          (∀ row ∈ db.historyRows run message, row.role = .user → row ∈ turns.map Prod.fst) ∧
          ∀ row turn, (row, turn) ∈ turns →
            (row.role = .user → row.id ≠ run.userMessageId → ∀ id ∈ row.runId, id ∈ full →
              ∃ prior transcript, db.runs.get? id = some prior ∧
                loadTranscript loads prior.transcript = .ok transcript ∧
                (turn = transcript ∨ turn = userText row.content :: transcript)) ∧
            (¬(row.role = .user ∧ ∃ id ∈ replayRunId run row, id ∈ full) →
              ∀ m ∈ turn, m.IsPortable) := by
  unfold loadConversationHistory at h
  split at h
  · cases h
  · next run hrun =>
    split at h
    · cases h
    · next message hmessage =>
      obtain ⟨older, full, hsplit, hmem, hfull, holder⟩ := exists_fullReplaySuffix u db run
        (priorRunIds run.userMessageId (db.historyRows run message))
      obtain ⟨turns, hhistory, hsub, huser, hturns⟩ :=
        exists_turns (nodup_historyRows run message) h
      refine ⟨run, message, hrun, hmessage, older, full, hsplit, hfull, holder, ?_, turns, hhistory,
        hsub, huser, fun row turn hturn => ⟨fun hrole hprior id hid hin => ?_, fun hnot => ?_⟩⟩
      · intro before mid after hcut hmid id hbefore hin
        have hnodup : (db.succeededPriorRuns run message).Nodup :=
          nodup_succeededPriorRuns run message
        have hcut' : older ++ full = before ++ mid :: after := hsplit.symm.trans hcut
        have hmidFull : mid ∉ full := fun hmem => hmid (hfull mid hmem)
        exact List.notMem_of_before (hsplit ▸ hnodup) hcut' hmidFull hbefore hin
      · exact transcript_suffix_of_turnOf (hturns _ hturn) hrole hprior hid ((hmem id).mpr hin)
      · refine isPortable_of_turnOf (hturns _ hturn) fun hrole id hid hin => ?_
        exact hnot ⟨hrole, id, hid, (hmem id).mp hin⟩

/-! ### A switch to another route and back -/

/-- A run of the model `model` that answered with the help of a tool. -/
def toolRun (userMessageId : ℕ) (model : String) (id : ℕ) : RunRow where
  id := id
  conversationId := 0
  userMessageId := userMessageId
  status := .succeeded
  providerName := "openrouter"
  providerModel := model
  modelConfigSnapshot := .obj [("version", .int 2), ("adapter", .str "openrouter"),
    ("upstream", .str "main"), ("base_url", .str "https://route.test/v1/"),
    ("provider_model", .str model)]
  supportsImageInput := some false
  transcript :=
    [storedRow 1 (userText "question") (some userMessageId),
      storedRow 2 ⟨.assistant, [.toolCall "call" "web_search" []]⟩ none,
      storedRow 3 ⟨.user, [.toolResult "call" "found" false]⟩ none,
      storedRow 4 ⟨.assistant, [.text "answer"]⟩ none]

/-- A message of a user. -/
def question (runId position id : ℕ) : MessageRow where
  id := id
  conversationId := 0
  runId := some runId
  role := .user
  content := "question"
  replyQuoteExcerpt := none
  metadata := .null
  position := position
  archivedAt := none

/-- Two turns of one model around a turn of another, and a new run of the first model. -/
def switchedBack : ConversationTables where
  conversations := Table.empty.insert (fun id => ⟨id, 0, none, none⟩) fun _ => rfl
  messages :=
    (((Table.empty.insert (question 0 1) fun _ => rfl).insert (question 1 3) fun _ => rfl).insert
      (question 2 5) fun _ => rfl).insert (question 3 7) fun _ => rfl
  runs :=
    (((Table.empty.insert (toolRun 0 "grok") fun _ => rfl).insert (toolRun 1 "gemini")
      fun _ => rfl).insert (toolRun 2 "grok") fun _ => rfl).insert
      (fun id => { toolRun 3 "grok" id with
        status := .started, transcript := [storedRow 1 (userText "question") (some 3)] })
      fun _ => rfl

/-- The turns before the switch are projected, the one after it is replayed in full. -/
def switchedBackHistory : List Message :=
  [userText "question", ⟨.assistant, [.text "answer"]⟩,
    userText "question", ⟨.assistant, [.text "answer"]⟩,
    userText "question", ⟨.assistant, [.toolCall "call" "web_search" []]⟩,
    ⟨.user, [.toolResult "call" "found" false]⟩, ⟨.assistant, [.text "answer"]⟩,
    userText "question"]

theorem switchedBack_suffix :
    ∃ run message, switchedBack.runs.get? 3 = some run ∧
      switchedBack.messages.get? run.userMessageId = some message ∧
      ∃ older full, switchedBack.succeededPriorRuns run message = older ++ full ∧
        (∀ id ∈ full, switchedBack.SameRoute .ascii run id) ∧
        ∀ id ∈ older.getLast?, ¬switchedBack.SameRoute .ascii run id := by
  have hload : switchedBack.loadConversationHistory (fun _ => none) .ascii 3 =
      .ok switchedBackHistory := by
    decide +kernel
  obtain ⟨run, message, hrun, hmessage, older, full, hsplit, hfull, holder, -⟩ :=
    routeAffineReplay hload
  exact ⟨run, message, hrun, hmessage, older, full, hsplit, hfull, holder⟩

end ConversationTables

end IChat.Conversations
