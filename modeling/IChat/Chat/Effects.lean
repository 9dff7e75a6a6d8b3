import IChat.Chat.TableSteps

/-!
# The effects of a step, row by row

`TablesStep` says which function has been applied; here is what that means for the messages that are
shown and for the runs. Archiving hides messages and changes nothing else of them, a turn and an
answer add one message each at the end of their conversation, and a run is written back under its
own id.
-/

namespace IChat.Chat

open Files Conversations Transcript

/-- The message is there and not archived. -/
def ShownIn (db : ConversationTables) (m : MessageRow) : Prop :=
  m ∈ db.messages ∧ m.archivedAt = none

variable {loads : String → Option Json} {db db' : ConversationTables} {conversationId now : ℕ}
  {p : ℕ → Bool} {m : MessageRow} {run : RunRow}

/-! ### Archiving -/

/-- A message after the messages of a conversation were archived whose position satisfies a
test. -/
def archivedRow (conversationId : ℕ) (p : ℕ → Bool) (now : ℕ) (m : MessageRow) : MessageRow :=
  if m.conversationId = conversationId ∧ p m.position ∧ m.archivedAt = none then
    { m with archivedAt := some now }
  else m

/-- Only the moment of the archiving tells the two rows apart. -/
theorem archivedRow_eq (conversationId : ℕ) (p : ℕ → Bool) (now : ℕ) (m : MessageRow) :
    ∃ t, archivedRow conversationId p now m = { m with archivedAt := t } := by
  unfold archivedRow
  split_ifs
  · exact ⟨some now, rfl⟩
  · exact ⟨m.archivedAt, rfl⟩

theorem mem_archiveMessages :
    m ∈ (db.archiveMessages conversationId p now).messages ↔
      ∃ m₀ ∈ db.messages, archivedRow conversationId p now m₀ = m := by
  rw [ConversationTables.archiveMessages, Table.mem_map]
  rfl

theorem shownIn_archiveMessages :
    ShownIn (db.archiveMessages conversationId p now) m ↔
      ShownIn db m ∧ ¬(m.conversationId = conversationId ∧ p m.position = true) := by
  constructor
  · rintro ⟨hmem, hshown⟩
    obtain ⟨m₀, hm₀, rfl⟩ := mem_archiveMessages.mp hmem
    unfold archivedRow at hshown ⊢
    split_ifs at hshown ⊢ with harchived
    exact ⟨⟨hm₀, hshown⟩, fun hboth => harchived ⟨hboth.1, hboth.2, hshown⟩⟩
  · rintro ⟨⟨hmem, hshown⟩, hkept⟩
    refine ⟨mem_archiveMessages.mpr ⟨m, hmem, ?_⟩, hshown⟩
    exact if_neg fun hall => hkept ⟨hall.1, hall.2.1⟩

/-! ### Positions -/

/-- The next position of a conversation is behind all of its messages. -/
theorem position_lt_getNextMessagePosition (hmem : m ∈ db.messages)
    (hhere : m.conversationId = conversationId) :
    m.position < db.getNextMessagePosition conversationId := by
  unfold ConversationTables.getNextMessagePosition
  have hposition : m.position ∈ (db.messages.rows.filter fun m =>
      m.conversationId = conversationId).map MessageRow.position := by
    refine List.mem_map_of_mem (List.mem_filter.mpr ⟨hmem, ?_⟩)
    simpa using hhere
  have hle : ∀ {l : List ℕ} {n : ℕ}, n ∈ l → n ≤ l.foldr max 0 := by
    intro l n hn
    induction l with
    | nil => cases hn
    | cons k l ih =>
      rw [List.foldr_cons]
      rcases List.mem_cons.mp hn with rfl | hn
      · exact le_max_left _ _
      · exact (ih hn).trans (le_max_right _ _)
  have := hle hposition
  omega

/-- The messages of the new tables are the old ones, up to what a step may change of them, and at
most one at the end of its conversation. -/
structure MessagesGrow (db db' : ConversationTables) : Prop where
  rows : ∀ m ∈ db'.messages,
    (∃ m₀ ∈ db.messages, m₀.id = m.id ∧ m₀.conversationId = m.conversationId ∧
      m₀.position = m.position ∧ m₀.role = m.role) ∨
    m.id = db.messages.next ∧ m.role ≠ .system ∧
      ∀ m₀ ∈ db.messages, m₀.conversationId = m.conversationId → m₀.position < m.position

/-! ### Runs -/

/-- A run as it is created. -/
def newRun (db : ConversationTables) (request : RunRequest) (userMessageId : ℕ)
    (blocks : List ContentBlock) : RunRow where
  id := db.runs.next
  conversationId := request.conversationId
  userMessageId := userMessageId
  status := .queued
  providerName := request.providerName
  providerModel := request.providerModel
  modelConfigSnapshot := request.modelConfigSnapshot
  supportsImageInput := request.supportsImageInput
  transcript := [storedRow 1 ⟨.user, blocks⟩ (some userMessageId)]

theorem insertRun_eq_ok {request : RunRequest} {userMessageId : ℕ} {blocks : List ContentBlock}
    (h : db.insertRun request userMessageId blocks = .ok db') :
    db'.messages = db.messages ∧ db'.runs.next = db.runs.next + 1 ∧
      ∀ r, r ∈ db'.runs ↔ r ∈ db.runs ∨ r = newRun db request userMessageId blocks := by
  unfold ConversationTables.insertRun at h
  obtain ⟨transcript, htranscript, h⟩ := bind_eq_ok_iff.mp h
  have hstored : transcript = [storedRow 1 ⟨.user, blocks⟩ (some userMessageId)] := by
    simpa [Transcript.appendTranscriptMessage, Transcript.getNextTranscriptSeq, Except.mapError,
      eq_comm] using htranscript
  cases h
  refine ⟨rfl, rfl, fun r => ?_⟩
  rw [Table.mem_insert, hstored]
  rfl

/-! ### Turns -/

/-- A message as a turn creates it. -/
def newMessage (db : ConversationTables) (request : RunRequest) (content : String)
    (quoteExcerpt : Option String) (position : ℕ) : MessageRow where
  id := db.messages.next
  conversationId := request.conversationId
  runId := some db.runs.next
  role := .user
  content := content
  replyQuoteExcerpt := quoteExcerpt
  metadata := .null
  position := position
  archivedAt := none

/-- What a turn adds, and what it hides. -/
structure TurnEffect (db db' : ConversationTables) (request : RunRequest) (content : String)
    (quoteExcerpt : Option String) (p : ℕ → Bool) (blocks : List ContentBlock) (position : ℕ) :
    Prop where
  behind : ∀ m ∈ db.messages, m.conversationId = request.conversationId → m.position < position
  messages : ∀ m, m ∈ db'.messages ↔
    (∃ m₀ ∈ db.messages, archivedRow request.conversationId p request.now m₀ = m) ∨
      m = newMessage db request content quoteExcerpt position
  runs : ∀ r, r ∈ db'.runs ↔ r ∈ db.runs ∨ r = newRun db request db.messages.next blocks
  nextMessage : db'.messages.next = db.messages.next + 1
  nextRun : db'.runs.next = db.runs.next + 1

theorem turnEffect {request : RunRequest} {content : String} {quoteExcerpt : Option String}
    {blocks : List ContentBlock}
    (h : ((db.archiveMessages request.conversationId p request.now).insertMessage
      request.conversationId db.runs.next .user content quoteExcerpt .null).insertRun request
        db.messages.next blocks = .ok db') :
    ∃ position, TurnEffect db db' request content quoteExcerpt p blocks position := by
  obtain ⟨hmessages, hnext, hruns⟩ := insertRun_eq_ok h
  refine ⟨(db.archiveMessages request.conversationId p request.now).getNextMessagePosition
    request.conversationId, fun m hmem hhere => ?_, fun m => ?_, hruns, ?_, hnext⟩
  · obtain ⟨t, ht⟩ := archivedRow_eq request.conversationId p request.now m
    have hmem' := mem_archiveMessages.mpr ⟨m, hmem, ht⟩
    have hlt := position_lt_getNextMessagePosition hmem' hhere
    exact hlt
  · rw [hmessages, ConversationTables.insertMessage, Table.mem_insert, mem_archiveMessages]
    rfl
  · rw [hmessages]
    rfl

namespace TurnEffect

variable {request : RunRequest} {content : String} {quoteExcerpt : Option String}
  {blocks : List ContentBlock} {position : ℕ}

/-- What is shown after a turn: what was not archived, and the new message. -/
theorem shownIn (h : TurnEffect db db' request content quoteExcerpt p blocks position) :
    ShownIn db' m ↔
      ShownIn db m ∧ ¬(m.conversationId = request.conversationId ∧ p m.position = true) ∨
        m = newMessage db request content quoteExcerpt position := by
  rw [ShownIn, h.messages, ← mem_archiveMessages, or_and_right]
  refine or_congr shownIn_archiveMessages ?_
  exact ⟨And.left, fun heq => ⟨heq, by rw [heq]; rfl⟩⟩

theorem messagesGrow (h : TurnEffect db db' request content quoteExcerpt p blocks position) :
    MessagesGrow db db' := by
  refine ⟨fun m hmem => ?_⟩
  rcases (h.messages m).mp hmem with ⟨m₀, hm₀, rfl⟩ | rfl
  · obtain ⟨t, ht⟩ := archivedRow_eq request.conversationId p request.now m₀
    rw [ht]
    exact .inl ⟨m₀, hm₀, rfl, rfl, rfl, rfl⟩
  · exact .inr ⟨rfl, nofun, fun m₀ hm₀ hhere => h.behind m₀ hm₀ hhere⟩

end TurnEffect

/-! ### Regenerations -/

/-- What a regeneration changes: the messages behind the anchor are hidden, and the anchor has a new
run. -/
structure RerunEffect (db db' : ConversationTables) (request : RunRequest) (anchor : MessageRow)
    (blocks : List ContentBlock) : Prop where
  messages : ∀ m, m ∈ db'.messages ↔
    (∃ m₀ ∈ db.messages, m₀.id ≠ anchor.id ∧
      archivedRow request.conversationId (anchor.position < ·) request.now m₀ = m) ∨
      m = { anchor with runId := some db.runs.next }
  runs : ∀ r, r ∈ db'.runs ↔ r ∈ db.runs ∨ r = newRun db request anchor.id blocks
  nextMessage : db'.messages.next = db.messages.next
  nextRun : db'.runs.next = db.runs.next + 1

theorem rerunEffect {request : RunRequest} {anchor : MessageRow} {blocks : List ContentBlock}
    (hmem : anchor ∈ db.messages)
    (h : (db.archiveMessages request.conversationId (anchor.position < ·) request.now).insertRun
      request anchor.id blocks = .ok db') :
    RerunEffect db { db' with
      messages := db'.messages.set { anchor with runId := some db.runs.next } } request anchor
        blocks := by
  obtain ⟨hmessages, hnext, hruns⟩ := insertRun_eq_ok h
  have hid (m₀ : MessageRow) :
      (archivedRow request.conversationId (anchor.position < ·) request.now m₀).id = m₀.id := by
    obtain ⟨t, ht⟩ := archivedRow_eq request.conversationId (anchor.position < ·) request.now m₀
    rw [ht]
  have hnextMessage : db'.messages.next = db.messages.next := by
    rw [hmessages]
    rfl
  refine ⟨fun m => ?_, hruns, hnextMessage, hnext⟩
  have hthere : ∃ m₀ ∈ db'.messages, m₀.id = anchor.id := by
    rw [hmessages]
    exact ⟨_, mem_archiveMessages.mpr ⟨anchor, hmem, rfl⟩, hid anchor⟩
  have hset := Table.mem_set (a := { anchor with runId := some db.runs.next }) (b := m) hthere
  rw [hmessages, mem_archiveMessages, or_comm] at hset
  rw [hmessages]
  refine hset.trans ?_
  refine or_congr ⟨?_, ?_⟩ Iff.rfl
  · rintro ⟨⟨m₀, hm₀, rfl⟩, hne⟩
    rw [hid] at hne
    exact ⟨m₀, hm₀, hne, rfl⟩
  · rintro ⟨m₀, hm₀, hne, rfl⟩
    refine ⟨⟨m₀, hm₀, rfl⟩, ?_⟩
    rw [hid]
    exact hne

namespace RerunEffect

variable {request : RunRequest} {anchor : MessageRow} {blocks : List ContentBlock}

/-- What is shown after a regeneration. -/
theorem shownIn (h : RerunEffect db db' request anchor blocks) (hshown : anchor.archivedAt = none) :
    ShownIn db' m ↔
      ShownIn db m ∧ m.id ≠ anchor.id ∧
        ¬(m.conversationId = request.conversationId ∧ anchor.position < m.position) ∨
      m = { anchor with runId := some db.runs.next } := by
  rw [ShownIn, h.messages, or_and_right]
  refine or_congr ?_ ⟨And.left, fun heq => ⟨heq, by rw [heq]; exact hshown⟩⟩
  have hiff : ShownIn (db.archiveMessages request.conversationId (anchor.position < ·)
      request.now) m ↔ _ := shownIn_archiveMessages
  rw [ShownIn, mem_archiveMessages, decide_eq_true_eq] at hiff
  constructor
  · rintro ⟨⟨m₀, hm₀, hne, rfl⟩, hnone⟩
    obtain ⟨hshown₀, hkept⟩ := hiff.mp ⟨⟨m₀, hm₀, rfl⟩, hnone⟩
    refine ⟨hshown₀, ?_, hkept⟩
    obtain ⟨t, ht⟩ := archivedRow_eq request.conversationId (anchor.position < ·) request.now m₀
    rw [ht]
    exact hne
  · rintro ⟨hshown₀, hne, hkept⟩
    obtain ⟨⟨m₀, hm₀, heq⟩, hnone⟩ := hiff.mpr ⟨hshown₀, hkept⟩
    refine ⟨⟨m₀, hm₀, ?_, heq⟩, hnone⟩
    obtain ⟨t, ht⟩ := archivedRow_eq request.conversationId (anchor.position < ·) request.now m₀
    rw [← heq, ht] at hne
    exact hne

theorem messagesGrow (h : RerunEffect db db' request anchor blocks) (hmem : anchor ∈ db.messages) :
    MessagesGrow db db' := by
  refine ⟨fun m hm => .inl ?_⟩
  rcases (h.messages m).mp hm with ⟨m₀, hm₀, -, rfl⟩ | rfl
  · obtain ⟨t, ht⟩ := archivedRow_eq request.conversationId (anchor.position < ·) request.now m₀
    rw [ht]
    exact ⟨m₀, hm₀, rfl, rfl, rfl, rfl⟩
  · exact ⟨anchor, hmem, rfl, rfl, rfl, rfl⟩

end RerunEffect

/-! ### Runs that move -/

/-- One run is written back; the messages stay. -/
structure RunMoved (db db' : ConversationTables) (run run' : RunRow) : Prop where
  mem : run ∈ db.runs
  id : run'.id = run.id
  messages : db'.messages = db.messages
  runs : ∀ r, r ∈ db'.runs ↔ r = run' ∨ r ∈ db.runs ∧ r.id ≠ run.id
  nextRun : db'.runs.next = db.runs.next

theorem advanceRun_eq_ok {runId : ℕ} {status : RunStatus}
    (h : db.advanceRun runId status = .ok db') :
    ∃ run, isActiveStatus run.status = true ∧ isActiveStatus status = true ∧
      RunMoved db db' run { run with status } := by
  unfold ConversationTables.advanceRun at h
  split at h
  · cases h
  · next run hrun =>
    obtain ⟨hguard, h⟩ := ite_error_eq_ok_iff.mp h
    cases h
    push Not at hguard
    have hmem := Table.mem_of_get? hrun
    refine ⟨run, by simpa using hguard.1, by simpa using hguard.2, hmem, rfl, rfl, fun r => ?_, rfl⟩
    exact Table.mem_set ⟨run, hmem, rfl⟩

theorem endRun_eq_ok {runId : ℕ} {status : RunStatus} {transcript : List Message}
    (h : db.endRun runId status transcript = .ok db') :
    ∃ run rows, isActiveStatus run.status = true ∧ (status = .failed ∨ status = .cancelled) ∧
      ConversationTables.persistTranscript transcript none run.transcript = .ok rows ∧
      RunMoved db db' run { run with status, transcript := rows } := by
  unfold ConversationTables.endRun at h
  split at h
  · cases h
  · next run hrun =>
    obtain ⟨hguard, h⟩ := ite_error_eq_ok_iff.mp h
    obtain ⟨rows, hrows, h⟩ := bind_eq_ok_iff.mp h
    cases h
    have hmem := Table.mem_of_get? hrun
    refine ⟨run, rows, ?_, ?_, hrows, hmem, rfl, rfl, fun r => ?_, rfl⟩
    · by_contra hinactive
      exact hguard (.inl (by simpa using hinactive))
    · by_contra hneither
      push Not at hneither
      exact hguard (.inr hneither)
    · exact Table.mem_set ⟨run, hmem, rfl⟩

/-! ### Answers -/

/-- The message that a run is answered with. -/
def answerMessage (db : ConversationTables) (run : RunRow) (content : String) (metadata : Json) :
    MessageRow where
  id := db.messages.next
  conversationId := run.conversationId
  runId := some run.id
  role := .assistant
  content := content
  replyQuoteExcerpt := none
  metadata := metadata
  position := db.getNextMessagePosition run.conversationId
  archivedAt := none

/-- What an answer adds. -/
structure AnswerEffect (db db' : ConversationTables) (run : RunRow) (final : Message)
    (metadata : Json) (rows : List TranscriptRow) : Prop where
  mem : run ∈ db.runs
  active : isActiveStatus run.status = true
  messages : ∀ m, m ∈ db'.messages ↔
    m ∈ db.messages ∨ m = answerMessage db run final.text metadata
  runs : ∀ r, r ∈ db'.runs ↔
    r = { run with status := .succeeded, transcript := rows } ∨ r ∈ db.runs ∧ r.id ≠ run.id
  nextMessage : db'.messages.next = db.messages.next + 1
  nextRun : db'.runs.next = db.runs.next

theorem succeedRun_eq_ok {runId : ℕ} {transcript : List Message} {metadata : Json}
    (h : db.succeedRun runId transcript metadata = .ok db') :
    ∃ run final rows, run.id = runId ∧ transcript.getLast? = some final ∧ final.role = .assistant ∧
      ConversationTables.persistTranscript transcript (some db.messages.next) run.transcript =
        .ok rows ∧
      AnswerEffect db db' run final metadata rows := by
  unfold ConversationTables.succeedRun at h
  split at h
  · cases h
  · next run hrun =>
    obtain ⟨hguard, h⟩ := ite_error_eq_ok_iff.mp h
    split at h
    · cases h
    · next final hfinal =>
      obtain ⟨hrole, h⟩ := ite_error_eq_ok_iff.mp h
      obtain ⟨rows, hrows, h⟩ := bind_eq_ok_iff.mp h
      cases h
      have hmem := Table.mem_of_get? hrun
      refine ⟨run, final, rows, Table.key_of_get? hrun, hfinal, not_not.mp hrole, hrows, hmem, ?_,
        fun m => ?_, fun r => ?_, rfl, rfl⟩
      · rw [not_and_or, not_not, not_not] at hguard
        rcases hguard with hstarted | hstreaming
        · rw [hstarted]
          rfl
        · rw [hstreaming]
          rfl
      · exact Table.mem_insert
      · exact Table.mem_set ⟨run, hmem, rfl⟩

theorem AnswerEffect.shownIn {final : Message} {metadata : Json} {rows : List TranscriptRow}
    (h : AnswerEffect db db' run final metadata rows) :
    ShownIn db' m ↔ ShownIn db m ∨ m = answerMessage db run final.text metadata := by
  rw [ShownIn, h.messages, or_and_right]
  exact or_congr Iff.rfl ⟨And.left, fun heq => ⟨heq, by rw [heq]; rfl⟩⟩

theorem AnswerEffect.messagesGrow {final : Message} {metadata : Json} {rows : List TranscriptRow}
    (h : AnswerEffect db db' run final metadata rows) : MessagesGrow db db' := by
  refine ⟨fun m hm => ?_⟩
  rcases (h.messages m).mp hm with hold | rfl
  · exact .inl ⟨m, hold, rfl, rfl, rfl, rfl⟩
  · exact .inr ⟨rfl, nofun, fun m₀ hm₀ hhere => position_lt_getNextMessagePosition hm₀ hhere⟩

end IChat.Chat
