import IChat.Chat.ActiveHistories
import IChat.Chat.AttachedFiles

/-!
# Images in a conversation

A conversation must not mix image blocks with notices about images, and a model that takes no images
must not be given one. The requests check this before they write, on the facts that the recorded
inputs of the shown messages give (`derive_image_context`). `build_chat_agent` checks it once more,
on the history of the run.

`ImagesConsistent` is what the first check keeps true of the tables. `checkImageInput_history` is
why the second one then never fails.
-/

namespace IChat.Chat

open Files Conversations Transcript ConversationTables StepSystem

/-! ### The agent of a run -/

/-- `_contains_image_block`. -/
def containsImageBlock (messages : List Message) : Bool :=
  messages.any fun message => message.blocks.any fun block => (visionFileId block).isSome

/-- Whether the model of a run takes images; the list is `openai_vision_models`. -/
def supportsImageInput (visionModels : List String) (run : RunRow) : Bool :=
  match run.supportsImageInput with
  | some supported => supported
  | none => run.providerName = "openai" ∧ run.providerModel ∈ visionModels

/-- The check of images in `build_chat_agent`. -/
def checkImageInput (visionModels : List String) (run : RunRow) (history : List Message) :
    Except String Unit :=
  if containsImageBlock history ∧ supportsImageInput visionModels run = false then
    .error (run.providerName ++ "_image_input_not_supported")
  else .ok ()

section tables

variable {loads : String → Option Json} {asks : RunRequest → Prop} {u : Url.UnicodeData}
  {db db' : ConversationTables} {m m' t : MessageRow} {run run' : RunRow} {conversationId : ℕ}

/-! ### The facts of a message -/

/-- A user message that is shown, with its current run. -/
structure Question (db : ConversationTables) (m : MessageRow) (run : RunRow) : Prop where
  shown : ShownIn db m
  user : m.role = .user
  current : CurrentRun db m run

/-- The input of the run has an image block. -/
def HasVision (loads : String → Option Json) (run : RunRow) : Prop :=
  ∃ block ∈ recordedInput loads run, visionFileId block ≠ none

/-- The input of the run has a notice about an image. -/
def HasLegacy (loads : String → Option Json) (run : RunRow) : Prop :=
  ∃ block ∈ recordedInput loads run, legacyFileId block ≠ none

/-- The facts of a message are read from the input that its current run has recorded. -/
theorem Question.imageFacts (h : Question db m run) (hrecorded : Recorded loads run) :
    db.imageFacts loads m = .ok (messageFacts m (recordedInput loads run)) := by
  obtain ⟨rest, htranscript, hassistant⟩ := hrecorded.first
  obtain ⟨content, files, hinput⟩ := hrecorded.input
  have hrest : (rest.filter fun row => row.messageId = some m.id ∧ row.role = Role.user.value) =
      [] := by
    refine List.filter_eq_nil_iff.mpr fun row hrow hboth => ?_
    obtain ⟨hlinked, hrole⟩ := of_decide_eq_true hboth
    have hanswer := hassistant row hrow (by rw [hlinked]; nofun)
    rw [hrole] at hanswer
    exact absurd hanswer (by decide)
  have hrow : db.inputRow m =
      some (storedRow 1 ⟨.user, recordedInput loads run⟩ (some run.userMessageId)) := by
    rw [inputRow, h.current.runId, Option.bind_eq_bind, Option.bind_some,
      Option.bind_eq_bind, Table.get?_key h.current.mem, Option.bind_some, htranscript,
      List.filter_cons_of_pos, hrest]
    · rfl
    · exact decide_eq_true ⟨congrArg some h.current.userMessageId, rfl⟩
  rw [ConversationTables.imageFacts, hrow]
  dsimp only
  rw [transcriptMessageFromRow_storedRow loads _ _ hinput.valid]
  rfl

theorem hasVision_messageFacts :
    (messageFacts m (recordedInput loads run)).visionFileIds ≠ [] ↔ HasVision loads run := by
  rw [messageFacts, Ne, List.filterMap_eq_nil_iff]
  push Not
  rfl

theorem hasLegacy_messageFacts :
    (messageFacts m (recordedInput loads run)).legacyFileIds ≠ [] ↔ HasLegacy loads run := by
  rw [messageFacts, Ne, List.filterMap_eq_nil_iff]
  push Not
  rfl

/-! ### The image context -/

theorem mem_visibleUserMessages : m ∈ db.visibleUserMessages conversationId ↔
    ShownIn db m ∧ m.conversationId = conversationId ∧ m.role = .user := by
  rw [visibleUserMessages, List.mem_filter, mem_visible, decide_eq_true_eq, and_assoc]

/-- **The image context.** It can be derived, and says of each question what its input has. -/
theorem deriveImageContext_eq_ok (hwf : WellFormed loads db) (conversationId : ℕ) :
    ∃ facts, db.deriveImageContext loads conversationId = .ok facts ∧
      ∀ f, f ∈ facts ↔ ∃ m run, Question db m run ∧ m.conversationId = conversationId ∧
        f = messageFacts m (recordedInput loads run) := by
  have hfacts : ∀ m ∈ db.visibleUserMessages conversationId, ∃ run, Question db m run ∧
      db.imageFacts loads m = .ok (messageFacts m (recordedInput loads run)) := by
    intro m hm
    obtain ⟨hshown, -, hrole⟩ := mem_visibleUserMessages.mp hm
    obtain ⟨run, hcurrent⟩ := hwf.threads.current m hshown hrole
    have hquestion : Question db m run := ⟨hshown, hrole, hcurrent⟩
    exact ⟨run, hquestion, hquestion.imageFacts (hwf.recordings.recorded run hcurrent.mem)⟩
  -- the facts of a message, as far as they are defined
  let factsOf (m : MessageRow) : MessageImageFacts :=
    match db.imageFacts loads m with
    | .ok f => f
    | .error _ => messageFacts m []
  have hmap : ∀ m ∈ db.visibleUserMessages conversationId,
      db.imageFacts loads m = .ok (factsOf m) := by
    intro m hm
    obtain ⟨run, -, hf⟩ := hfacts m hm
    simp only [factsOf, hf]
  refine ⟨_, Except.mapM_eq_ok_map hmap, fun f => ⟨fun hf => ?_, ?_⟩⟩
  · obtain ⟨m, hm, rfl⟩ := List.mem_map.mp hf
    obtain ⟨run, hquestion, heq⟩ := hfacts m hm
    refine ⟨m, run, hquestion, (mem_visibleUserMessages.mp hm).2.1, ?_⟩
    simp only [factsOf, heq]
  · rintro ⟨m, run, hquestion, hhere, rfl⟩
    refine List.mem_map.mpr
      ⟨m, mem_visibleUserMessages.mpr ⟨hquestion.shown, hhere, hquestion.user⟩, ?_⟩
    have heq := hquestion.imageFacts (hwf.recordings.recorded run hquestion.current.mem)
    simp only [factsOf, heq]

/-- The guard of a request has seen what the questions that it leaves have. -/
theorem imagesFit_left {request : RunRequest} {p : ℕ → Bool} {supported : Bool}
    (hwf : WellFormed loads db) (himages : Requests.ImagesFit loads request p db)
    (hsupported : request.supportsImageInput = some supported) (hquestion : Question db m run)
    (hhere : m.conversationId = request.conversationId) (hleft : p m.position = false) :
    (HasVision loads run → supported = true) ∧ (HasLegacy loads run → supported = false) := by
  obtain ⟨facts, hfacts, hvalid⟩ := himages
  obtain ⟨facts', hderive, hmem⟩ := deriveImageContext_eq_ok hwf request.conversationId
  obtain rfl : facts' = facts := by
    rw [imageContext, hderive] at hfacts
    exact Except.ok.inj hfacts
  let left : ImageContextFacts := facts'.filter fun f => !p f.position
  have hin : messageFacts m (recordedInput loads run) ∈ left := by
    refine List.mem_filter.mpr ⟨(hmem _).mpr ⟨m, run, hquestion, hhere, rfl⟩, ?_⟩
    change (!p m.position) = true
    rw [hleft]
    rfl
  rw [hsupported] at hvalid
  obtain ⟨hvision, hvalid⟩ := ite_error_eq_ok_iff.mp hvalid
  obtain ⟨hlegacy, -⟩ := ite_error_eq_ok_iff.mp hvalid
  constructor
  · intro hhas
    have hany : left.hasVision = true :=
      List.any_eq_true.mpr ⟨_, hin, decide_eq_true (hasVision_messageFacts.mpr hhas)⟩
    exact eq_true_of_ne_false fun hnot => hvision ⟨hany, hnot⟩
  · intro hhas
    have hany : left.hasLegacy = true :=
      List.any_eq_true.mpr ⟨_, hin, decide_eq_true (hasLegacy_messageFacts.mpr hhas)⟩
    exact eq_false_of_ne_true fun hnot => hlegacy ⟨hany, hnot⟩

/-- So is what a request has planned itself. -/
theorem plannedInput_images {supported : Bool} {content : String} {files : List FileAsset}
    (hinput : PlannedInput (some supported) content files (recordedInput loads run)) :
    (HasVision loads run → supported = true) ∧ (HasLegacy loads run → supported = false) := by
  constructor
  · rintro ⟨block, hblock, hvision⟩
    by_contra hnot
    exact hvision (hinput.vision (fun htrue => hnot (Option.some.inj htrue)) block hblock)
  · rintro ⟨block, hblock, hlegacy⟩
    refine eq_false_of_ne_true fun htrue => ?_
    subst htrue
    exact hlegacy (hinput.legacy block hblock)

/-! ### The invariant -/

/-- Image blocks and notices about images are not mixed in a conversation, and while a run is
active, its model takes the images that are shown. -/
structure ImagesConsistent (loads : String → Option Json) (db : ConversationTables) : Prop where
  unmixed : ∀ m run m' run', Question db m run → Question db m' run' →
    m.conversationId = m'.conversationId → HasVision loads run → ¬HasLegacy loads run'
  admitted : ∀ m run m' run', Question db m run → isActiveStatus run.status = true →
    Question db m' run' → m.conversationId = m'.conversationId → HasVision loads run' →
      run.supportsImageInput = some true

/-- What a question has been asked with: all of its conversation fits it. -/
theorem images_of_asked {request : RunRequest} {p : ℕ → Bool} {content : String}
    {files : List FileAsset} (hwf : WellFormed loads db)
    (hknown : request.supportsImageInput ≠ none)
    (himages : Requests.ImagesFit loads request p db)
    (hinput : PlannedInput request.supportsImageInput content files (recordedInput loads run))
    (hhere : m.conversationId = request.conversationId) (hm : Question db' m run)
    (hleft : ∀ m', ShownIn db' m' → m'.conversationId = request.conversationId → m'.id ≠ m.id →
      ShownIn db m' ∧ p m'.position = false ∧ ∀ run', CurrentRun db' m' run' →
        CurrentRun db m' run')
    (hm' : Question db' m' run') (hthere : m'.conversationId = request.conversationId) :
    (HasVision loads run' → request.supportsImageInput = some true) ∧
      (HasLegacy loads run' → request.supportsImageInput = some false) := by
  obtain ⟨supported, hsupported⟩ := Option.ne_none_iff_exists'.mp hknown
  rw [hsupported] at hinput ⊢
  simp only [Option.some.injEq]
  by_cases hid : m'.id = m.id
  · have heq : m' = m := Table.eq_of_key_eq hm'.shown.1 hm.shown.1 hid
    subst heq
    rw [hm'.current.run_eq hm.current]
    exact plannedInput_images hinput
  · obtain ⟨hshown, hposition, hcurrent⟩ := hleft m' hm'.shown hthere hid
    exact imagesFit_left hwf himages hsupported ⟨hshown, hm'.user, hcurrent _ hm'.current⟩ hthere
      hposition

/-- **Images.** A step that carries out requests of known models keeps the images consistent. -/
theorem TablesStep.images (h : TablesStep loads asks db db') (hwf : WellFormed loads db)
    (hknown : ∀ request, asks request → request.supportsImageInput ≠ none)
    (himages : ImagesConsistent loads db) : ImagesConsistent loads db' := by
  have horigin {m : MessageRow} {run : RunRow} (hm : Question db' m run) :
      InputOrigin loads asks db db' m run := h.inputOrigin hwf hm.shown hm.user hm.current
  have hvision {run run₀ : RunRow} (hinput : recordedInput loads run = recordedInput loads run₀) :
      (HasVision loads run → HasVision loads run₀) ∧
        (HasLegacy loads run → HasLegacy loads run₀) := by
    rw [HasVision, HasVision, HasLegacy, HasLegacy, hinput]
    exact ⟨fun hv => hv, fun hl => hl⟩
  refine ⟨fun m run m' run' hm hm' hhere hv hl => ?_,
    fun m run m' run' hm hactive hm' hhere hv => ?_⟩
  · cases horigin hm with
    | asked request p content files asked fits input supports here left =>
      have htrue := (images_of_asked hwf (hknown _ asked) fits input here hm left hm here).1 hv
      have hfalse := (images_of_asked hwf (hknown _ asked) fits input here hm left hm'
        (hhere.symm.trans here)).2 hl
      rw [htrue] at hfalse
      cases hfalse
    | kept run₀ shown current input =>
      cases horigin hm' with
      | asked request p content files asked fits input' supports' here left =>
        have htrue := (images_of_asked hwf (hknown _ asked) fits input' here hm' left hm
          (hhere.trans here)).1 hv
        have hfalse := (images_of_asked hwf (hknown _ asked) fits input' here hm' left
          hm' here).2 hl
        rw [htrue] at hfalse
        cases hfalse
      | kept run₁ shown' current' input' =>
        exact himages.unmixed m run₀ m' run₁ ⟨shown, hm.user, current⟩ ⟨shown', hm'.user, current'⟩
          hhere ((hvision input).1 hv) ((hvision input').2 hl)
  · cases horigin hm with
    | asked request p content files asked fits input supports here left =>
      rw [supports]
      exact (images_of_asked hwf (hknown _ asked) fits input here hm left hm'
        (hhere.symm.trans here)).1 hv
    | kept run₀ shown current input supports active =>
      cases horigin hm' with
      | asked request p content files asked fits input' supports' here left idle =>
        -- no request is carried out while a run is active
        refine absurd ⟨run₀, current.mem, ?_, active hactive⟩ idle
        rw [current.conversationId, hhere, here]
      | kept run₁ shown' current' input' =>
        rw [supports]
        exact himages.admitted m run₀ m' run₁ ⟨shown, hm.user, current⟩ (active hactive)
          ⟨shown', hm'.user, current'⟩ hhere ((hvision input').1 hv)

theorem imagesConsistent_empty : ImagesConsistent loads .empty :=
  ⟨fun _ _ _ _ hm => absurd hm.shown.1 Table.not_mem_empty,
    fun _ _ _ _ hm => absurd hm.shown.1 Table.not_mem_empty⟩

/-! ### The history of a run -/

/-- The agent puts no image blocks out. -/
theorem visionFileId_of_isOutput {message : Message} (h : message.IsOutput) :
    ∀ block ∈ message.blocks, visionFileId block = none := by
  obtain ⟨role, blocks⟩ := message
  intro block hblock
  cases role with
  | system => exact absurd h id
  | user =>
    have hresult := h block hblock
    cases block with
    | image => cases hresult
    | _ => rfl
  | assistant =>
    have hmodel := h block hblock
    cases block with
    | image => cases hmodel
    | _ => rfl

/-- What is replayed of an output has no image blocks either. -/
theorem visionFileId_keptOutput {mode : ReplayMode} {output : List Message}
    (h : ∀ message ∈ output, message.IsOutput) :
    ∀ message ∈ keptOutput mode output, ∀ block ∈ message.blocks, visionFileId block = none := by
  intro message hmessage block hblock
  cases mode with
  | full => exact visionFileId_of_isOutput (h message hmessage) block hblock
  | input => cases hmessage
  | portable =>
    simp only [keptOutput] at hmessage
    split at hmessage
    · cases hmessage
    · next final hfinal =>
      split_ifs at hmessage
      · cases hmessage
      · rw [List.mem_singleton.mp hmessage] at hblock
        have hin : final ∈ output := List.mem_of_getLast? hfinal
        exact visionFileId_of_isOutput (h final hin) block (List.mem_filter.mp hblock).1

/-- An image block of a replayed turn is one of the input. -/
theorem hasVision_of_mem_recordedTurn {mode : ReplayMode} {message : Message} {block : ContentBlock}
    (hrecorded : Recorded loads run) (hmessage : message ∈ recordedTurn loads mode run)
    (hblock : block ∈ message.blocks) (hvision : visionFileId block ≠ none) :
    HasVision loads run := by
  rcases List.mem_cons.mp hmessage with rfl | hanswer
  · exact ⟨block, hblock, hvision⟩
  · split_ifs at hanswer
    · exact absurd (visionFileId_keptOutput hrecorded.output message hanswer block hblock) hvision
    · cases hanswer

/-- The history of an active run can be loaded, and its model takes the images in it. -/
theorem checkImageInput_history (hwf : WellFormed loads db) (himages : ImagesConsistent loads db)
    (hrun : run ∈ db.runs) (hactive : isActiveStatus run.status = true)
    (visionModels : List String) :
    ∃ history, db.loadConversationHistory loads u run.id = .ok history ∧
      checkImageInput visionModels run history = .ok () := by
  obtain ⟨t, ht⟩ := hwf.threads.lastQuestion hrun hactive
  refine ⟨_, loadConversationHistory_active hwf hactive ht, if_neg ?_⟩
  rintro ⟨hcontains, hunsupported⟩
  obtain ⟨message, hmessage, hany⟩ := List.any_eq_true.mp hcontains
  obtain ⟨block, hblock, hsome⟩ := List.any_eq_true.mp hany
  have hvision : visionFileId block ≠ none := Option.isSome_iff_ne_none.mp hsome
  have hown : Question db t run := ⟨ht.shown, ht.user, ht.current⟩
  -- some question that is shown has the image
  obtain ⟨m, r, hm, hhere, hhas⟩ : ∃ m r, Question db m r ∧
      m.conversationId = t.conversationId ∧ HasVision loads r := by
    rcases List.mem_append.mp hmessage with hprior | hlast
    · obtain ⟨m, hm, hturn⟩ := List.mem_flatMap.mp hprior
      obtain ⟨hshown, hhere, hrole, -⟩ := mem_priorQuestions.mp hm
      obtain ⟨r, hcurrent⟩ := hwf.threads.current m hshown hrole
      rw [turnMessages_eq hcurrent] at hturn
      exact ⟨m, r, ⟨hshown, hrole, hcurrent⟩, hhere, hasVision_of_mem_recordedTurn
        (hwf.recordings.recorded r hcurrent.mem) hturn hblock hvision⟩
    · rw [List.mem_singleton.mp hlast] at hblock
      exact ⟨t, run, hown, rfl, block, hblock, hvision⟩
  have hsupports := himages.admitted t run m r hown hactive hm hhere.symm hhas
  rw [supportsImageInput, hsupports] at hunsupported
  cases hunsupported

end tables

/-! ### Requests of known models -/

/-- The request that an action brings. -/
def Action.request : Action → Option RunRequest
  | .submit request .. | .beginEdit request .. | .beginRegenerate request .. => some request
  | _ => none

/-- It is known of every request whether its model takes images. -/
def KnowsImages (_ : ChatWorld) (action : Action) : Prop :=
  ∀ request ∈ action.request, request.supportsImageInput ≠ none

instance (w : ChatWorld) (action : Action) : Decidable (KnowsImages w action) :=
  inferInstanceAs (Decidable (∀ request ∈ action.request, _))

variable {env : Env} {w w' : ChatWorld} {action : Action} {c : ℕ} {session : Session}

/-- It was known of the requests of those who hold a conversation. -/
def SessionsKnown (w : ChatWorld) : Prop :=
  ∀ c session, w.sessions c = some session → ∀ request, session.Asks request →
    request.supportsImageInput ≠ none

theorem SessionsKnown.of_eq (h : SessionsKnown w) (heq : w'.sessions = w.sessions) :
    SessionsKnown w' :=
  fun c session hsession => h c session (congrFun heq c ▸ hsession)

theorem SessionsKnown.setSession (h : SessionsKnown w) {new : Option Session}
    (hnew : ∀ session ∈ new, ∀ request, session.Asks request → request.supportsImageInput ≠ none) :
    SessionsKnown (w.setSession c new) := by
  intro d session hsession request hasks
  change Function.update w.sessions c new d = some session at hsession
  rcases eq_or_ne d c with rfl | hne
  · rw [Function.update_self] at hsession
    exact hnew session hsession request hasks
  · rw [Function.update_of_ne hne] at hsession
    exact h d session hsession request hasks

theorem SessionsKnown.step (hw : SessionsKnown w) (hknows : KnowsImages w action)
    (h : step env w action = some w') : SessionsKnown w' := by
  cases action with
  | files =>
    obtain ⟨db, -, rfl⟩ := ChatWorld.write_eq_some h
    exact hw.of_eq rfl
  | createConversation | advanceRun =>
    obtain ⟨tables, -, rfl⟩ := ChatWorld.writeTables_eq_some h
    exact hw.of_eq rfl
  | deleteConversation | restoreConversation | endRun =>
    obtain ⟨-, h⟩ := Option.ite_none_right_eq_some.mp h
    obtain ⟨tables, -, rfl⟩ := ChatWorld.writeTables_eq_some h
    exact hw.of_eq rfl
  | submit =>
    obtain ⟨-, h⟩ := Option.ite_none_right_eq_some.mp h
    obtain ⟨db, -, rfl⟩ := ChatWorld.write_eq_some h
    exact hw.of_eq rfl
  | beginEdit request | beginRegenerate request =>
    obtain ⟨-, h⟩ := Option.ite_none_right_eq_some.mp h
    split at h
    · cases h
    · cases h
      refine hw.setSession ?_
      rintro _ ⟨⟩ _ rfl
      exact hknows request rfl
  | beginPurge =>
    obtain ⟨-, h⟩ := Option.ite_none_right_eq_some.mp h
    cases h
    exact hw.setSession fun _ hnew _ hasks => by cases hnew; exact absurd hasks id
  | readPurged =>
    obtain ⟨_, _, _, _, -, rfl⟩ := ChatWorld.step_readPurged h
    exact hw.setSession fun _ hnew _ hasks => by cases hnew; exact absurd hasks id
  | commit =>
    obtain ⟨_, db, -, -, rfl⟩ := ChatWorld.step_commit h
    exact hw.setSession fun _ hnew => absurd hnew.symm (Option.some_ne_none _)
  | rollback =>
    cases h
    exact hw.setSession fun _ hnew => absurd hnew.symm (Option.some_ne_none _)
  | restoreSources =>
    obtain ⟨_, rfl⟩ := ChatWorld.step_restoreSources h
    exact hw.of_eq rfl
  | registerSources =>
    obtain ⟨_, rfl⟩ := ChatWorld.step_registerSources h
    exact hw.of_eq rfl
  | succeedRun =>
    obtain ⟨_, _, _, -, -, -, -, rfl⟩ := ChatWorld.step_succeedRun h
    exact hw.of_eq rfl

/-! ### The result -/

/-- A request that is carried out makes a new run, for the model it asks for. -/
theorem newRun_of_asks {request : RunRequest} (h : step env w action = some w')
    (hasks : action.Asks w request) :
    ∃ run ∈ w'.db.runs, run.id = w.db.runs.next ∧ isActiveStatus run.status = true ∧
      run.supportsImageInput = request.supportsImageInput := by
  -- both kinds of requests write a new row
  have hnew {tables : ConversationTables} {messageId : ℕ} {blocks : List ContentBlock}
      (hmem : newRun w.db.toConversationTables request messageId blocks ∈ tables.runs) :
      ∃ run ∈ tables.runs, run.id = w.db.runs.next ∧ isActiveStatus run.status = true ∧
        run.supportsImageInput = request.supportsImageInput := ⟨_, hmem, rfl, rfl, rfl⟩
  have hturned {content : String} {quoteExcerpt : Option String} {p : ℕ → Bool} {ids : List ℕ}
      {loaded : List FileAsset} {plan : AttachmentPlan} {db : FileDb}
      (hturn : Requests.Turn env.loads request content quoteExcerpt p ids loaded plan w.db db) :
      ∃ run ∈ db.runs, run.id = w.db.runs.next ∧ isActiveStatus run.status = true ∧
        run.supportsImageInput = request.supportsImageInput := by
    obtain ⟨tables, htables, rfl⟩ := insertTurn_eq_ok hturn.inserted
    obtain ⟨position, heffect⟩ := turnEffect htables
    rw [bindAttachmentPlan_tables]
    exact hnew ((heffect.runs _).mpr (.inr rfl))
  cases action with
  | submit =>
    cases hasks
    obtain ⟨-, h⟩ := Option.ite_none_right_eq_some.mp h
    obtain ⟨db, hresult, rfl⟩ := ChatWorld.write_eq_some h
    obtain ⟨quoteExcerpt, plan, hturn⟩ := Requests.submitUserMessage_eq_ok hresult
    exact hturned hturn
  | commit =>
    obtain ⟨session, hsession, hsame⟩ := hasks
    simp only [Chat.step, hsession] at h
    obtain ⟨db, hresult, rfl⟩ := ChatWorld.write_eq_some h
    cases session with
    | edit =>
      cases hsame
      obtain ⟨target, plan, turned, -, hturn, heq⟩ := Requests.editUserMessage_eq_ok hresult
      change ∃ run ∈ db.runs, _
      rw [heq, foldl_refreshDetachedState_tables]
      exact hturned hturn
    | regenerate =>
      cases hsame
      obtain ⟨anchor, plan, -, hrerun⟩ := Requests.regenerateFromMessage_eq_ok hresult
      obtain ⟨tables, htables, rfl⟩ := hrerun.result
      exact hnew (((rerunEffect hrerun.mem htables).runs _).mpr (.inr rfl))
    | purge => cases hsame
  | _ => cases hasks

/-- **Images.** While it is known of every request whether its model takes images: no conversation
mixes image blocks with notices about images, and whatever run is active, its history can be loaded
and the agent be built. So it is for the run that a request has just made. -/
theorem images_admitted (env : Env) (visionModels : List String) (actions : List Action)
    (w : ChatWorld) (hrun : run (step env) .init actions = some w)
    (hknows : Along (step env) KnowsImages .init actions) :
    (∀ conversationId, ∃ facts, w.db.deriveImageContext env.loads conversationId = .ok facts ∧
      ¬(facts.hasVision = true ∧ facts.hasLegacy = true)) ∧
    (∀ run ∈ w.db.runs, isActiveStatus run.status = true →
      ∃ history, w.db.loadConversationHistory env.loads env.unicode run.id = .ok history ∧
        checkImageInput visionModels run history = .ok ()) ∧
    ∀ action w' request, KnowsImages w action → step env w action = some w' →
      action.Asks w request → ∃ run, w'.db.runs.get? w.db.runs.next = some run ∧
        run.supportsImageInput = request.supportsImageInput ∧
        ∃ history, w'.db.loadConversationHistory env.loads env.unicode run.id = .ok history ∧
          checkImageInput visionModels run history = .ok () := by
  let Inv (w : ChatWorld) : Prop := WellFormed env.loads w.db.toConversationTables ∧
    SessionsKnown w ∧ ImagesConsistent env.loads w.db.toConversationTables
  have hstep : ∀ w a w', Inv w → KnowsImages w a → step env w a = some w' → Inv w' := by
    rintro w action w' ⟨hwf, hsessions, himages⟩ hknows h
    have htables := step_tables h
    refine ⟨htables.wellFormed hwf, hsessions.step hknows h, htables.images hwf ?_ himages⟩
    intro request hasks
    cases action with
    | submit =>
      cases hasks
      exact hknows request rfl
    | commit conversationId =>
      obtain ⟨session, hsession, hsame⟩ := hasks
      exact hsessions conversationId session hsession request hsame
    | _ => cases hasks
  have hinit : Inv .init := ⟨wellFormed_empty, nofun, imagesConsistent_empty⟩
  have hinv : Inv w := run_invariant_along hstep hinit hknows hrun
  have hafter : ∀ action w', KnowsImages w action → step env w action = some w' → Inv w' :=
    fun action w' hknown h => hstep w action w' hinv hknown h
  obtain ⟨hwf, -, himages⟩ := hinv
  refine ⟨fun conversationId => ?_, fun run hmem hactive =>
    checkImageInput_history hwf himages hmem hactive visionModels,
    fun action w' request hknown h hasks => ?_⟩
  · obtain ⟨facts, hfacts, hmem⟩ := deriveImageContext_eq_ok hwf conversationId
    refine ⟨facts, hfacts, ?_⟩
    rintro ⟨hvision, hlegacy⟩
    obtain ⟨f, hf, hfv⟩ := List.any_eq_true.mp hvision
    obtain ⟨f', hf', hfl⟩ := List.any_eq_true.mp hlegacy
    obtain ⟨m, run, hm, hhere, rfl⟩ := (hmem f).mp hf
    obtain ⟨m', run', hm', hthere, rfl⟩ := (hmem f').mp hf'
    exact himages.unmixed m run m' run' hm hm' (hhere.trans hthere.symm)
      (hasVision_messageFacts.mp (of_decide_eq_true hfv))
      (hasLegacy_messageFacts.mp (of_decide_eq_true hfl))
  · obtain ⟨hwf', -, himages'⟩ := hafter action w' hknown h
    obtain ⟨run, hmem, hid, hactive, hsupports⟩ := newRun_of_asks h hasks
    exact ⟨run, hid ▸ Table.get?_key hmem, hsupports,
      checkImageInput_history hwf' himages' hmem hactive visionModels⟩

/-- The preview of an image. -/
def previewEntry : ManifestEntry where
  role := .preview
  objectKey := 1
  mediaType := "image/webp"
  sizeBytes := 5
  sha256 := "0123456789abcdef0123456789abcdef0123456789abcdef0123456789abcdef"
  storageLocation := .modelPreviewPrivate

/-- What is read of an image. -/
def imageColumns : FileDb.ProcessedColumns where
  mediaType := "image/png"
  originalSizeBytes := 10
  sha256 := "0"
  warnings := []
  extractorVersion := "image-v2"
  summaryMetadata := [("width", .int 4), ("height", .int 3)]
  documentText := none
  modelInputKind := some .image

/-- The user uploads an image, shows it to a model that takes images, and asks another one again. -/
def submitImage : List Action :=
  [.createConversation 1,
    .files 0 (.createUpload 1 "photo.png" .upload "image/png".toList 10 false),
    .files 0 (.confirmUpload 1 0 (some ['e']) none
      (some ⟨10, "image/png".toList, ['e'], some 10⟩)),
    .files 0 (.claimUpload 0 0),
    .files 0 (.persistManifest 0 0 [previewEntry]),
    .files 0 (.commitSuccess 0 0 imageColumns [previewEntry]),
    .submit { textRequest with supportsImageInput := some true } "What is this?" [0] none,
    .endRun 0 .cancelled [],
    .beginRegenerate { textRequest with supportsImageInput := some true } 0,
    .commit 0]

theorem images_admitted_submitImage :
    ∃ w, run (step plainEnv) .init submitImage = some w ∧
      (∃ run ∈ w.db.runs, isActiveStatus run.status = true ∧
        ((w.db.loadConversationHistory plainEnv.loads plainEnv.unicode run.id).toOption.any
          containsImageBlock) = true) ∧
      ∀ run ∈ w.db.runs, isActiveStatus run.status = true →
        ∃ history, w.db.loadConversationHistory plainEnv.loads plainEnv.unicode run.id =
            .ok history ∧ checkImageInput [] run history = .ok () := by
  have hreached : ∃ w, run (step plainEnv) .init submitImage = some w ∧
      ∃ run ∈ w.db.runs, isActiveStatus run.status = true ∧
        ((w.db.loadConversationHistory plainEnv.loads plainEnv.unicode run.id).toOption.any
          containsImageBlock) = true :=
    exists_run (by decide +kernel)
  have hknows : Along (step plainEnv) KnowsImages .init submitImage := by decide +kernel
  obtain ⟨w, hrun, himage⟩ := hreached
  exact ⟨w, hrun, himage, (images_admitted plainEnv [] submitImage w hrun hknows).2.1⟩

end IChat.Chat
