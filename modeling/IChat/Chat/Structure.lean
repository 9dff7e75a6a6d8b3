import IChat.Chat.ActiveHistories
import IChat.Chat.AttachedFiles

/-!
# The structure of a conversation

What the code that reads conversations relies on: at most one run is active, positions tell the
messages apart and grow, a question points to its run and an answer stands behind its question, and
what an edit or a regeneration archives is the end of what was shown.
-/

namespace IChat.Chat

open Files Conversations ConversationTables StepSystem

section tables

variable {loads : String → Option Json} {asks : RunRequest → Prop} {db db' : ConversationTables}
  {a m : MessageRow} {conversationId : ℕ}

/-! ### Answers -/

/-- An answer that is shown stands right behind the question of its run. -/
theorem WellFormed.answer_behind (h : WellFormed loads db) (ha : a ∈ db.visible conversationId)
    (hrole : a.role = .assistant) :
    ∃ before m after, db.visible conversationId = before ++ m :: a :: after ∧ m.role = .user ∧
      ∃ run ∈ db.runs, a.runId = some run.id ∧ run.userMessageId = m.id := by
  obtain ⟨hshown, hhere⟩ := mem_visible.mp ha
  obtain ⟨m, run, hans⟩ := h.threads.answered a hshown hrole
  have hm : m ∈ db.visible conversationId :=
    mem_visible.mpr ⟨hans.shown, hans.conversationId.symm.trans hhere⟩
  obtain ⟨before, after, hsplit⟩ := List.exists_neighbours h.ordered.pairwise_visible
    hm ha hans.after
    fun x hx => by
      obtain ⟨hx, hthere⟩ := mem_visible.mp hx
      exact hans.adjacent x hx (hthere.trans (mem_visible.mp hm).2.symm)
  exact ⟨before, m, after, hsplit, hans.user, run, hans.current.mem, hans.runId,
    hans.current.userMessageId⟩

/-! ### Archiving -/

/-- What a step archives of a conversation: the messages whose position satisfies a test, which then
all later ones do. -/
structure ArchivesFrom (db db' : ConversationTables) (conversationId : ℕ)
    (p : ℕ → Bool) : Prop where
  upper : ∀ x y, x ≤ y → p x = true → p y = true
  archived : ∀ m, ShownIn db m → m.conversationId = conversationId → ∀ m' ∈ db'.messages,
    m'.id = m.id → (m'.archivedAt = none ↔ p m.position = false)

/-- Nothing is archived. -/
theorem archives_nothing (h : ∀ m ∈ db'.messages, m ∈ db.messages ∨ m.id = db.messages.next) :
    ArchivesFrom db db' conversationId fun _ => false := by
  refine ⟨fun _ _ _ hfalse => hfalse, fun m hm _ m' hm' hid => iff_of_true ?_ rfl⟩
  rcases h m' hm' with hold | hnew
  · rw [Table.eq_of_key_eq hold hm.1 hid]
    exact hm.2
  · have hlt := db.messages.lt_next m hm.1
    rw [← hid, hnew] at hlt
    exact absurd hlt (lt_irrefl _)

/-- The messages of one conversation are archived, from a position on. -/
theorem archives_upper (request : RunRequest) {p : ℕ → Bool}
    (hupper : ∀ x y, x ≤ y → p x = true → p y = true)
    (h : ∀ m ∈ db.messages, ∀ m' ∈ db'.messages, m'.id = m.id → m'.archivedAt =
      (archivedRow request.conversationId p request.now m).archivedAt) :
    ArchivesFrom db db' conversationId
      fun x => decide (conversationId = request.conversationId) && p x := by
  refine ⟨fun x y hle hx => ?_, fun m hm hhere m' hm' hid => ?_⟩
  · rw [Bool.and_eq_true] at hx ⊢
    exact ⟨hx.1, hupper x y hle hx.2⟩
  · rw [h m hm.1 m' hm' hid, archivedRow, hhere]
    split_ifs with hcut
    · simp [hcut.1, hcut.2.1]
    · refine iff_of_true hm.2 (Bool.eq_false_iff.mpr fun htrue => hcut ?_)
      rw [Bool.and_eq_true, decide_eq_true_eq] at htrue
      exact ⟨htrue.1, htrue.2, hm.2⟩

/-- **Archiving.** Every step archives the end of what is shown, if anything. -/
theorem TablesStep.archivesFrom (h : TablesStep loads asks db db') (conversationId : ℕ) :
    ∃ p, ArchivesFrom db db' conversationId p := by
  cases h with
  | conversations => exact ⟨_, archives_nothing fun m hm => .inl hm⟩
  | @turn _ request content quoteExcerpt p files blocks asked idle upper cut images input result =>
    obtain ⟨position, heffect⟩ := turnEffect result
    refine ⟨_, archives_upper request upper fun m hm m' hm' hid => ?_⟩
    rcases (heffect.messages m').mp hm' with ⟨m₀, hm₀, rfl⟩ | rfl
    · obtain ⟨t, ht⟩ := archivedRow_eq request.conversationId p request.now m₀
      have hsame : m₀.id = m.id := by
        rw [← hid, ht]
      rw [Table.eq_of_key_eq hm₀ hm hsame]
    · have hlt := db.messages.lt_next m hm
      rw [← hid] at hlt
      exact absurd hlt (lt_irrefl _)
  | @rerun _ request anchor files blocks asked idle mem here shown role images input result =>
    have heffect := rerunEffect mem result
    have hupper : ∀ x y, x ≤ y → decide (anchor.position < x) = true →
        decide (anchor.position < y) = true := by
      intro x y hle hx
      rw [decide_eq_true_eq] at hx ⊢
      omega
    refine ⟨_, archives_upper request hupper fun m hm m' hm' hid => ?_⟩
    rcases (heffect.messages m').mp hm' with ⟨m₀, hm₀, -, rfl⟩ | rfl
    · obtain ⟨t, ht⟩ := archivedRow_eq request.conversationId (anchor.position < ·) request.now m₀
      have hsame : m₀.id = m.id := by
        rw [← hid, ht]
      rw [Table.eq_of_key_eq hm₀ hm hsame]
    · -- the anchor itself stays
      have hsame : m = anchor := Table.eq_of_key_eq hm mem hid.symm
      rw [hsame, archivedRow, if_neg]
      simp
  | advance runId status result =>
    obtain ⟨run, -, -, hmoved⟩ := advanceRun_eq_ok result
    exact ⟨_, archives_nothing fun m hm => .inl (hmoved.messages ▸ hm)⟩
  | succeed runId transcript metadata output result =>
    obtain ⟨run, final, rows, -, -, -, -, heffect⟩ := succeedRun_eq_ok result
    refine ⟨_, archives_nothing fun m hm => ?_⟩
    exact ((heffect.messages m).mp hm).imp_right fun heq => by rw [heq]; rfl
  | ended runId status transcript output result =>
    obtain ⟨run, rows, -, -, -, hmoved⟩ := endRun_eq_ok result
    exact ⟨_, archives_nothing fun m hm => .inl (hmoved.messages ▸ hm)⟩
  | purge =>
    exact ⟨_, archives_nothing fun m hm => .inl (Table.mem_filter.mp hm).1⟩

/-- What is archived is a suffix of what was shown. -/
theorem ArchivesFrom.suffix {p : ℕ → Bool} (h : ArchivesFrom db db' conversationId p)
    (hdb : Ordered db) :
    ∃ kept hidden, db.visible conversationId = kept ++ hidden ∧ ∀ m' ∈ db'.messages,
      ((∃ m ∈ kept, m'.id = m.id) → m'.archivedAt = none) ∧
      ((∃ m ∈ hidden, m'.id = m.id) → m'.archivedAt ≠ none) := by
  let visible := db.visible conversationId
  have hcut : (visible.filter fun m => !p m.position) ++ visible.filter (fun m => p m.position) =
      visible :=
    List.filter_not_append_filter (hdb.pairwise_visible.imp fun hlt => h.upper _ _ hlt.le)
  refine ⟨_, _, hcut.symm, fun m' hm' => ⟨?_, ?_⟩⟩
  · rintro ⟨m, hm, hid⟩
    obtain ⟨hvisible, hnot⟩ := List.mem_filter.mp hm
    obtain ⟨hshown, hhere⟩ := mem_visible.mp hvisible
    exact (h.archived m hshown hhere m' hm' hid).mpr (by simpa using hnot)
  · rintro ⟨m, hm, hid⟩ hnone
    obtain ⟨hvisible, hp⟩ := List.mem_filter.mp hm
    obtain ⟨hshown, hhere⟩ := mem_visible.mp hvisible
    have hnot := (h.archived m hshown hhere m' hm' hid).mp hnone
    rw [hnot] at hp
    cases hp

end tables

/-! ### The result -/

/-- The messages of a conversation make up a thread. -/
structure Structured (db : ConversationTables) : Prop where
  one_active : ∀ run ∈ db.runs, ∀ run' ∈ db.runs, isActiveStatus run.status = true →
    isActiveStatus run'.status = true → run.conversationId = run'.conversationId → run = run'
  positions : ∀ m ∈ db.messages, ∀ m' ∈ db.messages, m.conversationId = m'.conversationId →
    m.position = m'.position → m = m'
  question : ∀ m ∈ db.messages, m.archivedAt = none → m.role = .user →
    ∃ run ∈ db.runs, m.runId = some run.id ∧ run.userMessageId = m.id
  answer : ∀ conversationId, ∀ a ∈ db.visible conversationId, a.role = .assistant →
    ∃ before m after, db.visible conversationId = before ++ m :: a :: after ∧ m.role = .user ∧
      ∃ run ∈ db.runs, a.runId = some run.id ∧ run.userMessageId = m.id

theorem WellFormed.structured {loads : String → Option Json} {db : ConversationTables}
    (h : WellFormed loads db) : Structured db where
  one_active _ hrun _ hrun' hactive hactive' hhere :=
    h.threads.active_unique h.ordered hrun hrun' hactive hactive' hhere
  positions := h.ordered.unique
  question m hm hshown hrole := by
    obtain ⟨run, hcurrent⟩ := h.threads.current m ⟨hm, hshown⟩ hrole
    exact ⟨run, hcurrent.mem, hcurrent.runId, hcurrent.userMessageId⟩
  answer _ _ ha hrole := h.answer_behind ha hrole

/-- **Structure.** Every state that is reached is structured. A message that a step adds stands
behind all earlier ones of its conversation, archived or not, and what a step archives is a suffix
of what was shown. -/
theorem conversation_structure (env : Env) (actions : List Action) (w : ChatWorld)
    (hrun : run (step env) .init actions = some w) :
    Structured w.db.toConversationTables ∧
    ∀ action w', step env w action = some w' →
      (∀ m ∈ w'.db.messages, (∀ m₀ ∈ w.db.messages, m₀.id ≠ m.id) →
        ∀ m₀ ∈ w.db.messages, m₀.conversationId = m.conversationId → m₀.position < m.position) ∧
      ∀ conversationId, ∃ kept hidden,
        w.db.visible conversationId = kept ++ hidden ∧ ∀ m' ∈ w'.db.messages,
          ((∃ m ∈ kept, m'.id = m.id) → m'.archivedAt = none) ∧
          ((∃ m ∈ hidden, m'.id = m.id) → m'.archivedAt ≠ none) := by
  let Inv (w : ChatWorld) : Prop := WellFormed env.loads w.db.toConversationTables
  have hstep : ∀ w a w', Inv w → step env w a = some w' → Inv w' :=
    fun _ _ _ hwf h => (step_tables h).wellFormed hwf
  have hinv : Inv w := run_invariant hstep wellFormed_empty hrun
  refine ⟨hinv.structured, fun action w' h => ⟨fun m hm hnew => ?_, fun conversationId => ?_⟩⟩
  · rcases (step_tables h).messagesGrow.rows m hm with ⟨m₀, hm₀, hid, -⟩ | ⟨-, -, hbehind⟩
    · exact absurd hid (hnew m₀ hm₀)
    · exact hbehind
  · obtain ⟨p, harchives⟩ := (step_tables h).archivesFrom conversationId
    exact harchives.suffix hinv.ordered

/-- The user gets an answer, asks once more, and edits the first question. -/
def editAnswered : List Action :=
  [.createConversation 1, .submit textRequest "Hello." [] none, .advanceRun 0 .started,
    .succeedRun 0 [⟨.assistant, [.text "Hi."]⟩], .submit textRequest "How are you?" [] none,
    .endRun 1 .failed [], .beginEdit textRequest 0 "Good morning." none, .commit 0]

theorem conversation_structure_editAnswered :
    ∃ w, run (step plainEnv) .init editAnswered = some w ∧
      (w.db.messages.rows.map MessageRow.archivedAt = [some 1, some 1, some 1, none]) ∧
      Structured w.db.toConversationTables := by
  have hreached : ∃ w, run (step plainEnv) .init editAnswered = some w ∧
      w.db.messages.rows.map MessageRow.archivedAt = [some 1, some 1, some 1, none] :=
    exists_run (by decide +kernel)
  obtain ⟨w, hrun, harchived⟩ := hreached
  exact ⟨w, hrun, harchived, (conversation_structure plainEnv editAnswered w hrun).1⟩

end IChat.Chat
