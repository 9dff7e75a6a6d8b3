import IChat.Chat.Histories

/-!
# Where the inputs of shown messages come from

The input of a message that is shown is what its current run has recorded. A step leaves it as it
was, or the message has just been given its run by a request, whose guard has seen the images of all
other messages that are shown (`InputOrigin`).
-/

namespace IChat.Chat

open Files Conversations Transcript

variable {loads : String → Option Json} {asks : RunRequest → Prop} {db db' : ConversationTables}
  {m : MessageRow} {run : RunRow}

/-- The current run of a shown user message after a step. -/
inductive InputOrigin (loads : String → Option Json) (asks : RunRequest → Prop)
    (db db' : ConversationTables) (m : MessageRow) (run : RunRow) : Prop
  | kept (run₀ : RunRow) (shown : ShownIn db m) (current : CurrentRun db m run₀)
      (input : recordedInput loads run = recordedInput loads run₀)
      (supports : run.supportsImageInput = run₀.supportsImageInput)
      (active : isActiveStatus run.status = true → isActiveStatus run₀.status = true)
  | asked (request : RunRequest) (p : ℕ → Bool) (content : String) (files : List FileAsset)
      (asked : asks request) (images : Requests.ImagesFit loads request p db)
      (input : PlannedInput request.supportsImageInput content files (recordedInput loads run))
      (supports : run.supportsImageInput = request.supportsImageInput)
      (here : m.conversationId = request.conversationId)
      (left : ∀ m', ShownIn db' m' → m'.conversationId = request.conversationId → m'.id ≠ m.id →
        ShownIn db m' ∧ p m'.position = false ∧
          ∀ run', CurrentRun db' m' run' → CurrentRun db m' run')
      (idle : ¬db.HasActiveRun request.conversationId)

/-- A run that is there still, with its message. -/
theorem InputOrigin.of_mem (h : CurrentRun db' m run) (hm : ShownIn db m) (hrun : run ∈ db.runs) :
    InputOrigin loads asks db db' m run :=
  .kept run hm ⟨hrun, h.runId, h.userMessageId, h.conversationId⟩ rfl rfl fun hactive => hactive

/-- A run that is written back with its input. -/
theorem InputOrigin.of_moved {run₀ run' : RunRow} (hmoved : RunMoved db db' run₀ run')
    (hm : ShownIn db' m) (h : CurrentRun db' m run)
    (huser : run'.userMessageId = run₀.userMessageId)
    (hhere : run'.conversationId = run₀.conversationId)
    (hsupports : run'.supportsImageInput = run₀.supportsImageInput)
    (hinput : recordedInput loads run' = recordedInput loads run₀)
    (hactive : isActiveStatus run'.status = true → isActiveStatus run₀.status = true) :
    InputOrigin loads asks db db' m run := by
  have hm₀ : ShownIn db m := ⟨hmoved.messages ▸ hm.1, hm.2⟩
  rcases (hmoved.runs run).mp h.mem with rfl | ⟨hrun, -⟩
  · refine .kept run₀ hm₀ ⟨hmoved.mem, ?_, huser ▸ h.userMessageId, hhere ▸ h.conversationId⟩ hinput
      hsupports hactive
    rw [h.runId, hmoved.id]
  · exact .of_mem h hm₀ hrun

/-- **Origins.** -/
theorem TablesStep.inputOrigin (h : TablesStep loads asks db db') (hdb : WellFormed loads db)
    (hm : ShownIn db' m) (hrole : m.role = .user) (hcurrent : CurrentRun db' m run) :
    InputOrigin loads asks db db' m run := by
  cases h with
  | conversations => exact .of_mem hcurrent hm hcurrent.mem
  | @turn _ request content quoteExcerpt p files blocks asked idle upper cut images input result =>
    obtain ⟨position, heffect⟩ := turnEffect result
    rcases heffect.shownIn.mp hm with ⟨hm₀, -⟩ | rfl
    · exact .of_mem hcurrent hm₀ ((heffect.currentRun_iff hm₀.1).mp hcurrent).mem
    · have hnew : run = newRun db request db.messages.next blocks := by
        rcases (heffect.runs run).mp hcurrent.mem with hrun | hnew
        · have hlt := hdb.recordings.userMessageId_lt run hrun
          have hid : run.userMessageId = db.messages.next := hcurrent.userMessageId
          omega
        · exact hnew
      have hload : loadTranscript loads run.transcript = .ok [⟨.user, blocks⟩] :=
        hnew ▸ load_newRun input
      refine .asked request p (modelContent quoteExcerpt content) files asked images ?_
        (by rw [hnew]; rfl)
        rfl (fun m' hm' hhere hne => ?_) idle
      · rw [(recorded_eq hload).1]
        exact input
      · rcases heffect.shownIn.mp hm' with ⟨hm', hkept⟩ | rfl
        · exact ⟨hm', by simpa [hhere] using hkept, fun _ => (heffect.currentRun_iff hm'.1).mp⟩
        · exact absurd rfl hne
  | @rerun _ request anchor files blocks asked idle mem here shown role images input result =>
    have heffect := rerunEffect mem result
    rcases (heffect.shownIn shown).mp hm with ⟨hm₀, hne, -⟩ | rfl
    · exact .of_mem hcurrent hm₀ ((heffect.currentRun_iff hne).mp hcurrent).mem
    · have hnew : run = newRun db request anchor.id blocks := by
        rcases (heffect.runs run).mp hcurrent.mem with hrun | hnew
        · have hlt := db.runs.lt_next run hrun
          have hid : db.runs.next = run.id := Option.some.inj hcurrent.runId
          omega
        · exact hnew
      have hload : loadTranscript loads run.transcript = .ok [⟨.user, blocks⟩] :=
        hnew ▸ load_newRun input
      refine .asked request (anchor.position ≤ ·)
        (modelContent anchor.replyQuoteExcerpt anchor.content)
        files asked images ?_ (by rw [hnew]; rfl) here (fun m' hm' hhere hne => ?_) idle
      · rw [(recorded_eq hload).1]
        exact input
      · rcases (heffect.shownIn shown).mp hm' with ⟨hm', hother, hkept⟩ | rfl
        · refine ⟨hm', decide_eq_false fun hle => ?_, fun _ => (heffect.currentRun_iff hother).mp⟩
          -- another message does not have the position of the anchor
          rcases hle.lt_or_eq with hlt | heq
          · exact hkept ⟨hhere, hlt⟩
          · have hsame := hdb.ordered.unique m' hm'.1 anchor mem (hhere.trans here.symm) heq.symm
            exact hne (by rw [hsame])
        · exact absurd rfl hne
  | advance runId status result =>
    obtain ⟨run₀, hactive, -, hmoved⟩ := advanceRun_eq_ok result
    exact .of_moved hmoved hm hcurrent rfl rfl rfl rfl fun _ => hactive
  | succeed runId transcript metadata output result =>
    obtain ⟨run₀, final, rows, -, hlast, hfinal, hrows, heffect⟩ := succeedRun_eq_ok result
    have hm₀ : ShownIn db m := by
      rcases heffect.shownIn.mp hm with hm | rfl
      · exact hm
      · cases hrole
    have hassistant : ∀ f ∈ transcript.getLast?, f.role = .assistant := by
      rw [hlast]
      rintro f ⟨⟩
      exact hfinal
    have hended : isActiveStatus .succeeded = false := rfl
    obtain ⟨-, hinput, -⟩ := (hdb.recordings.recorded run₀ heffect.mem).ended heffect.active hended
      output (fun _ _ => hassistant) (fun _ => ⟨final, hlast, hfinal⟩) hrows
    rcases (heffect.runs run).mp hcurrent.mem with rfl | ⟨hrun, -⟩
    · exact .kept run₀ hm₀ ⟨heffect.mem, hcurrent.runId, hcurrent.userMessageId,
        hcurrent.conversationId⟩ hinput rfl fun _ => heffect.active
    · exact .of_mem hcurrent hm₀ hrun
  | ended runId status transcript output result =>
    obtain ⟨run₀, rows, hactive, hstatus, hrows, hmoved⟩ := endRun_eq_ok result
    have hinactive : isActiveStatus status = false ∧ status ≠ .succeeded := by
      rcases hstatus with rfl | rfl <;> exact ⟨rfl, nofun⟩
    obtain ⟨-, hinput, -⟩ := (hdb.recordings.recorded run₀ hmoved.mem).ended hactive hinactive.1
      output (fun _ hnone => by cases hnone) (fun hsucceeded => absurd hsucceeded hinactive.2) hrows
    exact .of_moved hmoved hm hcurrent rfl rfl rfl hinput fun _ => hactive
  | purge =>
    exact .of_mem hcurrent ⟨(Table.mem_filter.mp hm.1).1, hm.2⟩ (Table.mem_filter.mp hcurrent.mem).1

end IChat.Chat
