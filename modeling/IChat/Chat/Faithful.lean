import IChat.Chat.Structure

/-!
# Faithful histories

The history of an active run is what the user sees: the questions before the run's own, each with
the answer that is shown behind it, and at the end the question itself. Nothing else gets into it:
of a run that has not succeeded only the input is kept, and of what is archived nothing.
-/

namespace IChat.Chat

open Files Conversations Transcript ConversationTables StepSystem

section tables

variable {loads : String → Option Json} {u : Url.UnicodeData} {db : ConversationTables}
  {run r : RunRow} {m t a : MessageRow}

/-! ### Turns -/

/-- The text of the final message of an answer. -/
def finalText (answer : List Message) : String := (answer.getLast?.map Message.text).getD ""

/-- The messages are the turn of a question as it is shown: its input, and the answer of its current
run if that has succeeded, in full or projected to portable blocks. -/
structure IsTurn (loads : String → Option Json) (db : ConversationTables) (m : MessageRow)
    (r : RunRow) (turn : List Message) : Prop where
  current : CurrentRun db m r
  input : ∃ files, PlannedInput r.supportsImageInput (modelContent m.replyQuoteExcerpt m.content)
    files (recordedInput loads r)
  unanswered : r.status ≠ .succeeded → turn = [⟨.user, recordedInput loads r⟩]
  answered : r.status = .succeeded → ∃ a answer, ShownIn db a ∧ a.role = .assistant ∧
    Answers db m r a ∧ turn = ⟨.user, recordedInput loads r⟩ :: answer ∧
    (answer = recordedOutput loads r ∨ answer = keptOutput .portable (recordedOutput loads r)) ∧
    finalText answer = a.content

/-- Projecting an answer keeps its final text. -/
theorem finalText_portable (output : List Message) :
    finalText (keptOutput .portable output) = finalText output := by
  simp only [finalText, keptOutput]
  cases output.getLast? with
  | none => rfl
  | some final =>
    have htext := text_textBlocks final .assistant
    dsimp only
    split_ifs with hempty
    · rw [hempty] at htext
      exact htext
    · exact htext

/-- The run of a prior question is one of those that modes are resolved for. -/
theorem mem_priorRunIds {rows : List MessageRow} {targetMessageId runId : ℕ} (hm : m ∈ rows)
    (hrole : m.role = .user) (hne : m.id ≠ targetMessageId) (hrunId : m.runId = some runId) :
    runId ∈ priorRunIds targetMessageId rows := by
  refine List.mem_eraseDups.mpr (List.mem_filterMap.mpr ⟨m, hm, ?_⟩)
  rw [if_neg (by simp [hrole, hne]), hrunId]

/-- The answer of a prior run that has succeeded is not left out. -/
theorem replayMode_ne_input {rows : List MessageRow} (hcurrent : CurrentRun db m r)
    (hsucceeded : r.status = .succeeded) (hm : m ∈ rows) (hrole : m.role = .user)
    (hne : m.id ≠ run.userMessageId) : replayMode u db rows run r.id ≠ .input := by
  have hmem : r.id ∈ priorRunIds run.userMessageId rows :=
    mem_priorRunIds hm hrole hne hcurrent.runId
  have hthere : db.Succeeded r.id := ⟨r, Table.get?_key hcurrent.mem, hsucceeded⟩
  rw [replayMode, resolveReplayMode, if_neg (by simp [hmem, hthere])]
  split_ifs <;> exact ReplayMode.noConfusion

/-- **Turns.** What is replayed of a prior question is its turn. -/
theorem isTurn_turnMessages (hwf : WellFormed loads db) (ht : LastQuestion db run t)
    (hm : m ∈ priorQuestions db t) :
    ∃ r, IsTurn loads db m r (turnMessages loads u db (db.visible t.conversationId) run m) := by
  obtain ⟨hshown, hhere, hrole, hbefore⟩ := mem_priorQuestions.mp hm
  obtain ⟨r, hcurrent⟩ := hwf.threads.current m hshown hrole
  have hinput := hwf.recordings.input r hcurrent.mem m hshown.1 hcurrent.userMessageId.symm
  rw [turnMessages_eq hcurrent]
  refine ⟨r, hcurrent, hinput, fun hnot => ?_, fun hsucceeded => ?_⟩
  · rw [recordedTurn, if_neg hnot]
  · obtain ⟨a, ha, hassistant, hrunId⟩ := hwf.threads.answer m r hshown hrole hcurrent hsucceeded
    have hans := hwf.threads.answers_of_runId hshown hcurrent ha hassistant hrunId
    obtain ⟨-, final, hfinal, hcontent⟩ :=
      hwf.recordings.answer a ha.1 hassistant r hcurrent.mem hrunId
    have hne : m.id ≠ run.userMessageId := by
      intro hid
      have heq : m = t := Table.eq_of_key_eq hshown.1 ht.shown.1
        (hid.trans ht.current.userMessageId)
      rw [heq] at hbefore
      exact absurd hbefore (lt_irrefl _)
    have hmode : replayMode u db (db.visible t.conversationId) run r.id ≠ .input :=
      replayMode_ne_input hcurrent hsucceeded (mem_visible.mpr ⟨hshown, hhere⟩) hrole hne
    have htext : finalText (recordedOutput loads r) = a.content := by
      rw [finalText, Option.mem_def.mp hfinal, hcontent]
      rfl
    refine ⟨a, _, ha, hassistant, hans, by rw [recordedTurn, if_pos hsucceeded], ?_, ?_⟩
    · cases hcase : replayMode u db (db.visible t.conversationId) run r.id with
      | full => exact .inl rfl
      | portable => exact .inr rfl
      | input => exact absurd hcase hmode
    · cases hcase : replayMode u db (db.visible t.conversationId) run r.id with
      | full => exact htext
      | portable => rw [finalText_portable, htext]
      | input => exact absurd hcase hmode

/-- An answer that is shown belongs to one question before the last one. -/
theorem exists_priorQuestion (hwf : WellFormed loads db) (ht : LastQuestion db run t)
    (ha : ShownIn db a) (hrole : a.role = .assistant)
    (hhere : a.conversationId = t.conversationId) :
    ∃ m ∈ priorQuestions db t, (∃ r, Answers db m r a) ∧
      ∀ m' r', Answers db m' r' a → m' = m := by
  obtain ⟨m, r, hans⟩ := hwf.threads.answered a ha hrole
  have hle := ht.last a ha hhere
  have hlt := hans.after
  refine ⟨m, mem_priorQuestions.mpr ⟨hans.shown, hans.conversationId.symm.trans hhere,
    hans.user, ?_⟩,
    ⟨r, hans⟩, fun m' r' hans' => ?_⟩
  · omega
  · have hrun : r' = r := Table.eq_of_key_eq hans'.current.mem hans.current.mem
      (Option.eq_some_unique hans'.runId hans.runId)
    rw [hrun] at hans'
    exact hans'.current.message_eq hans.current hans'.shown.1 hans.shown.1

end tables

/-! ### The result -/

/-- **Histories are faithful.** In every state that is reached, the history of an active run is the
turns of the questions that are shown before its own, in the order of their positions, and then its
own input. Every answer that is shown is in the turn of one question. -/
theorem history_faithful (env : Env) (actions : List Action) (w : ChatWorld)
    (hrun : run (step env) .init actions = some w) :
    ∀ run ∈ w.db.runs, isActiveStatus run.status = true → ∃ t turns,
      LastQuestion w.db.toConversationTables run t ∧
      w.db.loadConversationHistory env.loads env.unicode run.id =
        .ok ((priorQuestions w.db.toConversationTables t).flatMap turns ++
          [⟨.user, recordedInput env.loads run⟩]) ∧
      (∃ files, PlannedInput run.supportsImageInput (modelContent t.replyQuoteExcerpt t.content)
        files (recordedInput env.loads run)) ∧
      (priorQuestions w.db.toConversationTables t).Pairwise
        (fun m m' => m.position < m'.position) ∧
      (∀ m, m ∈ priorQuestions w.db.toConversationTables t ↔
        ShownIn w.db.toConversationTables m ∧ m.conversationId = t.conversationId ∧
          m.role = .user ∧ m.position < t.position) ∧
      (∀ m ∈ priorQuestions w.db.toConversationTables t,
        ∃ r, IsTurn env.loads w.db.toConversationTables m r (turns m)) ∧
      ∀ a, ShownIn w.db.toConversationTables a → a.role = .assistant →
        a.conversationId = t.conversationId →
          ∃ m ∈ priorQuestions w.db.toConversationTables t,
            (∃ r, Answers w.db.toConversationTables m r a) ∧
            ∀ m' r', Answers w.db.toConversationTables m' r' a → m' = m := by
  let Inv (w : ChatWorld) : Prop := WellFormed env.loads w.db.toConversationTables
  have hstep : ∀ w a w', Inv w → step env w a = some w' → Inv w' :=
    fun _ _ _ hwf h => (step_tables h).wellFormed hwf
  have hinv : Inv w := run_invariant hstep wellFormed_empty hrun
  intro run hmem hactive
  obtain ⟨t, ht⟩ := hinv.threads.lastQuestion hmem hactive
  refine ⟨t, _, ht, loadConversationHistory_active hinv hactive ht,
    hinv.recordings.input run hmem t ht.shown.1 ht.current.userMessageId.symm,
    hinv.ordered.pairwise_visible.filter _, fun m => mem_priorQuestions,
    fun m hm => isTurn_turnMessages hinv ht hm, fun a ha hrole hhere => ?_⟩
  exact exists_priorQuestion hinv ht ha hrole hhere

/-- The user gets an answer, asks once more in vain, and asks again. -/
def askAgain : List Action :=
  [.createConversation 1, .submit textRequest "Hello." [] none, .advanceRun 0 .started,
    .succeedRun 0 [⟨.assistant, [.text "Hi."]⟩], .submit textRequest "How are you?" [] none,
    .endRun 1 .failed [⟨.assistant, [.text "I"]⟩], .submit textRequest "Who are you?" [] none]

theorem history_faithful_askAgain :
    ∃ w, run (step plainEnv) .init askAgain = some w ∧
      (∃ run ∈ w.db.runs, isActiveStatus run.status = true ∧
        (w.db.loadConversationHistory plainEnv.loads plainEnv.unicode run.id).toOption =
          some [⟨.user, [.text "Hello."]⟩, ⟨.assistant, [.text "Hi."]⟩,
            ⟨.user, [.text "How are you?"]⟩, ⟨.user, [.text "Who are you?"]⟩]) ∧
      ∀ run ∈ w.db.runs, isActiveStatus run.status = true → ∃ t,
        LastQuestion w.db.toConversationTables run t := by
  have hreached : ∃ w, run (step plainEnv) .init askAgain = some w ∧
      ∃ run ∈ w.db.runs, isActiveStatus run.status = true ∧
        (w.db.loadConversationHistory plainEnv.loads plainEnv.unicode run.id).toOption =
          some [⟨.user, [.text "Hello."]⟩, ⟨.assistant, [.text "Hi."]⟩,
            ⟨.user, [.text "How are you?"]⟩, ⟨.user, [.text "Who are you?"]⟩] :=
    exists_run (by decide +kernel)
  obtain ⟨w, hrun, hhistory⟩ := hreached
  refine ⟨w, hrun, hhistory, fun run hmem hactive => ?_⟩
  obtain ⟨t, -, ht, -⟩ := history_faithful plainEnv askAgain w hrun run hmem hactive
  exact ⟨t, ht⟩

end IChat.Chat
