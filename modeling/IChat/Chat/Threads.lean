import IChat.Chat.Effects

/-!
# The threads of a conversation

The messages of a conversation that are shown make up a thread: user messages in the order of their
positions, each with its current run, and behind each one at most the answer of that run. Archiving
cuts a thread at a user message or behind it, so question and answer go together.

`Threads` says this of the tables, `TablesStep.threads` carries it through every step.
-/

namespace IChat.Chat

open Files Conversations

/-- No two messages of a conversation have the same position, and none has the system role. -/
structure Ordered (db : ConversationTables) : Prop where
  unique : ∀ m ∈ db.messages, ∀ m' ∈ db.messages, m.conversationId = m'.conversationId →
    m.position = m'.position → m = m'
  role : ∀ m ∈ db.messages, m.role ≠ .system

/-- The run is the one that a user message is answered by. -/
structure CurrentRun (db : ConversationTables) (m : MessageRow) (run : RunRow) : Prop where
  mem : run ∈ db.runs
  runId : m.runId = some run.id
  userMessageId : run.userMessageId = m.id
  conversationId : run.conversationId = m.conversationId

/-- The message is the answer of the current run of a user message, and nothing is shown between
the two. -/
structure Answers (db : ConversationTables) (m : MessageRow) (run : RunRow) (a : MessageRow) :
    Prop where
  shown : ShownIn db m
  user : m.role = .user
  current : CurrentRun db m run
  succeeded : run.status = .succeeded
  runId : a.runId = some run.id
  conversationId : a.conversationId = m.conversationId
  after : m.position < a.position
  adjacent : ∀ x, ShownIn db x → x.conversationId = m.conversationId →
    x.position ≤ m.position ∨ a.position ≤ x.position

/-- What the messages that are shown have to do with the runs. -/
structure Threads (db : ConversationTables) : Prop where
  current : ∀ m, ShownIn db m → m.role = .user → ∃ run, CurrentRun db m run
  answered : ∀ a, ShownIn db a → a.role = .assistant → ∃ m run, Answers db m run a
  answer : ∀ m run, ShownIn db m → m.role = .user → CurrentRun db m run →
    run.status = .succeeded → ∃ a, ShownIn db a ∧ a.role = .assistant ∧ a.runId = some run.id
  unique : ∀ a a', ShownIn db a → ShownIn db a' → a.role = .assistant → a'.role = .assistant →
    a.runId = a'.runId → a = a'
  active : ∀ run ∈ db.runs, isActiveStatus run.status = true →
    ∃ m, ShownIn db m ∧ m.role = .user ∧ CurrentRun db m run ∧
      ∀ x, ShownIn db x → x.conversationId = m.conversationId → x.position ≤ m.position

variable {loads : String → Option Json} {asks : RunRequest → Prop} {db db' : ConversationTables}
  {m m' a : MessageRow}
  {run run' : RunRow}

/-! ### Positions -/

theorem Ordered.grow (h : Ordered db) (hgrow : MessagesGrow db db') : Ordered db' where
  unique m hm m' hm' hhere hposition := by
    rcases hgrow.rows m hm with ⟨n, hn, hid, hconv, hpos, -⟩ | ⟨hid, -, hbehind⟩ <;>
      rcases hgrow.rows m' hm' with ⟨n', hn', hid', hconv', hpos', -⟩ | ⟨hid', -, hbehind'⟩
    · have heq : n = n' := h.unique n hn n' hn' (by rw [hconv, hconv', hhere])
        (by rw [hpos, hpos', hposition])
      refine Table.eq_of_key_eq hm hm' ?_
      rw [← hid, ← hid', heq]
    · have hlt := hbehind' n hn (hconv.trans hhere)
      omega
    · have hlt := hbehind n' hn' (hconv'.trans hhere.symm)
      omega
    · exact Table.eq_of_key_eq hm hm' (hid.trans hid'.symm)
  role m hm := by
    rcases hgrow.rows m hm with ⟨n, hn, -, -, -, hrole⟩ | ⟨-, hrole, -⟩
    · rw [← hrole]
      exact h.role n hn
    · exact hrole

theorem MessagesGrow.of_subset (h : ∀ m ∈ db'.messages, m ∈ db.messages) : MessagesGrow db db' :=
  ⟨fun m hm => .inl ⟨m, h m hm, rfl, rfl, rfl, rfl⟩⟩

/-- Every step keeps the messages it finds, but for their archiving and their run. -/
theorem TablesStep.messagesGrow (h : TablesStep loads asks db db') : MessagesGrow db db' := by
  cases h with
  | conversations => exact .of_subset fun _ hm => hm
  | turn asked idle upper cut images input result =>
    obtain ⟨position, heffect⟩ := turnEffect result
    exact heffect.messagesGrow
  | rerun asked idle mem here shown role images input result =>
    exact (rerunEffect mem result).messagesGrow mem
  | advance runId status result =>
    obtain ⟨run, -, -, hmoved⟩ := advanceRun_eq_ok result
    exact .of_subset fun _ hm => hmoved.messages ▸ hm
  | succeed runId transcript metadata output result =>
    obtain ⟨run, final, rows, -, -, -, -, heffect⟩ := succeedRun_eq_ok result
    exact heffect.messagesGrow
  | ended runId status transcript output result =>
    obtain ⟨run, rows, -, -, -, hmoved⟩ := endRun_eq_ok result
    exact .of_subset fun _ hm => hmoved.messages ▸ hm
  | purge =>
    exact .of_subset fun _ hm => (Table.mem_filter.mp hm).1

/-! ### Threads -/

/-- A run belongs to one message. -/
theorem CurrentRun.message_eq (h : CurrentRun db m run) (h' : CurrentRun db m' run)
    (hm : m ∈ db.messages) (hm' : m' ∈ db.messages) : m = m' :=
  Table.eq_of_key_eq hm hm' (h.userMessageId.symm.trans h'.userMessageId)

/-- A message has one current run. -/
theorem CurrentRun.run_eq (h : CurrentRun db m run) (h' : CurrentRun db m run') : run = run' :=
  Table.eq_of_key_eq h.mem h'.mem (Option.eq_some_unique h.runId h'.runId)

/-- The answer of a run answers the message whose current run it is. -/
theorem Threads.answers_of_runId (h : Threads db) (hm : ShownIn db m)
    (hcurrent : CurrentRun db m run)
    (ha : ShownIn db a) (hrole : a.role = .assistant) (hrunId : a.runId = some run.id) :
    Answers db m run a := by
  obtain ⟨n, run', hanswers⟩ := h.answered a ha hrole
  have hrun : run' = run := Table.eq_of_key_eq hanswers.current.mem hcurrent.mem
    (Option.eq_some_unique hanswers.runId hrunId)
  subst hrun
  rw [hcurrent.message_eq hanswers.current hm.1 hanswers.shown.1]
  exact hanswers

/-- Two active runs of a conversation are one. -/
theorem Threads.active_unique (h : Threads db) (hordered : Ordered db) (hrun : run ∈ db.runs)
    (hrun' : run' ∈ db.runs) (hactive : isActiveStatus run.status = true)
    (hactive' : isActiveStatus run'.status = true)
    (hhere : run.conversationId = run'.conversationId) : run = run' := by
  obtain ⟨m, hm, -, hcurrent, hlast⟩ := h.active run hrun hactive
  obtain ⟨m', hm', -, hcurrent', hlast'⟩ := h.active run' hrun' hactive'
  have hconv : m.conversationId = m'.conversationId := by
    rw [← hcurrent.conversationId, hhere, hcurrent'.conversationId]
  have hle := hlast m' hm' hconv.symm
  have hle' := hlast' m hm hconv
  have heq : m = m' := hordered.unique m hm.1 m' hm'.1 hconv (by omega)
  subst heq
  exact hcurrent.run_eq hcurrent'

/-! ### Turns and regenerations -/

/-- A row of a run that is not written is there afterwards, for the same message. -/
theorem CurrentRun.of_mem (h : CurrentRun db m run) (hrun : run ∈ db'.runs) :
    CurrentRun db' m run :=
  ⟨hrun, h.runId, h.userMessageId, h.conversationId⟩

/-- A turn leaves the messages that are shown with the runs they have. -/
theorem TurnEffect.currentRun_iff {request : RunRequest} {content : String}
    {quoteExcerpt : Option String} {p : ℕ → Bool} {blocks : List ContentBlock} {position : ℕ}
    (heffect : TurnEffect db db' request content quoteExcerpt p blocks position)
    (hm : m ∈ db.messages) : CurrentRun db' m run ↔ CurrentRun db m run := by
  constructor
  · intro hcurrent
    rcases (heffect.runs run).mp hcurrent.mem with hrun | rfl
    · exact hcurrent.of_mem hrun
    · have hlt := db.messages.lt_next m hm
      have hid : db.messages.next = m.id := hcurrent.userMessageId
      omega
  · exact fun hcurrent => hcurrent.of_mem ((heffect.runs run).mpr (.inl hcurrent.mem))

/-- So does a regeneration, but for its anchor. -/
theorem RerunEffect.currentRun_iff {request : RunRequest} {anchor : MessageRow}
    {blocks : List ContentBlock} (heffect : RerunEffect db db' request anchor blocks)
    (hne : m.id ≠ anchor.id) : CurrentRun db' m run ↔ CurrentRun db m run := by
  constructor
  · intro hcurrent
    rcases (heffect.runs run).mp hcurrent.mem with hrun | rfl
    · exact hcurrent.of_mem hrun
    · exact absurd hcurrent.userMessageId.symm hne
  · exact fun hcurrent => hcurrent.of_mem ((heffect.runs run).mpr (.inl hcurrent.mem))

theorem Threads.turn {request : RunRequest} {content : String} {quoteExcerpt : Option String}
    {p : ℕ → Bool} {blocks : List ContentBlock} {position : ℕ} (h : Threads db)
    (hordered : Ordered db) (hidle : ¬db.HasActiveRun request.conversationId)
    (hupper : ∀ x y, x ≤ y → p x = true → p y = true)
    (hcut : ∀ x, p x = true → ∃ target ∈ db.messages,
      target.conversationId = request.conversationId ∧ target.archivedAt = none ∧
        target.role = .user ∧ p target.position = true ∧ target.position ≤ x)
    (heffect : TurnEffect db db' request content quoteExcerpt p blocks position) : Threads db' := by
  have hold {r : RunRow} (hr : r ∈ db.runs) : r ∈ db'.runs := (heffect.runs r).mpr (.inl hr)
  have hnew : CurrentRun db' (newMessage db request content quoteExcerpt position)
      (newRun db request db.messages.next blocks) :=
    ⟨(heffect.runs _).mpr (.inr rfl), rfl, rfl, rfl⟩
  refine ⟨fun m hm hrole => ?_, fun a ha hrole => ?_, fun m run hm hrole hcurrent hsucceeded => ?_,
    fun a a' ha ha' hrole hrole' hrunId => ?_, fun run hrun hactive => ?_⟩
  · rcases heffect.shownIn.mp hm with ⟨hm, -⟩ | rfl
    · obtain ⟨run, hcurrent⟩ := h.current m hm hrole
      exact ⟨run, hcurrent.of_mem (hold hcurrent.mem)⟩
    · exact ⟨_, hnew⟩
  · rcases heffect.shownIn.mp ha with ⟨ha, hkept⟩ | rfl
    · obtain ⟨m, run, hans⟩ := h.answered a ha hrole
      refine ⟨m, run, heffect.shownIn.mpr (.inl ⟨hans.shown, fun hgone => hkept ⟨?_, ?_⟩⟩),
        hans.user, hans.current.of_mem (hold hans.current.mem), hans.succeeded, hans.runId,
        hans.conversationId, hans.after, fun x hx hhere => ?_⟩
      · exact hans.conversationId.trans hgone.1
      · exact hupper _ _ hans.after.le hgone.2
      · rcases heffect.shownIn.mp hx with ⟨hx, -⟩ | rfl
        · exact hans.adjacent x hx hhere
        · exact .inr (heffect.behind a ha.1 (hans.conversationId.trans hhere.symm)).le
    · cases hrole
  · rcases heffect.shownIn.mp hm with ⟨hm, hkept⟩ | rfl
    · have hcurrent := (heffect.currentRun_iff hm.1).mp hcurrent
      obtain ⟨a, ha, hassistant, hrunId⟩ := h.answer m run hm hrole hcurrent hsucceeded
      refine ⟨a, heffect.shownIn.mpr (.inl ⟨ha, fun hgone => hkept ?_⟩), hassistant, hrunId⟩
      -- the thread is cut at a user message, which is not between the two
      have hans := h.answers_of_runId hm hcurrent ha hassistant hrunId
      have hhere : m.conversationId = request.conversationId :=
        hans.conversationId.symm.trans hgone.1
      obtain ⟨target, htarget, hthere, hshown, huser, hcutting, hle⟩ := hcut _ hgone.2
      rcases hans.adjacent target ⟨htarget, hshown⟩ (hthere.trans hhere.symm) with hbelow | habove
      · exact ⟨hhere, hupper _ _ hbelow hcutting⟩
      · have heq : target = a := hordered.unique target htarget a ha.1 (hthere.trans hgone.1.symm)
          (by omega)
        rw [heq, hassistant] at huser
        cases huser
    · obtain rfl := hnew.run_eq hcurrent
      cases hsucceeded
  · rcases heffect.shownIn.mp ha with ⟨ha, -⟩ | rfl
    · rcases heffect.shownIn.mp ha' with ⟨ha', -⟩ | rfl
      · exact h.unique a a' ha ha' hrole hrole' hrunId
      · cases hrole'
    · cases hrole
  · rcases (heffect.runs run).mp hrun with hrun | rfl
    · have haway : run.conversationId ≠ request.conversationId :=
        fun hhere => hidle ⟨run, hrun, hhere, hactive⟩
      obtain ⟨m, hm, hrole, hcurrent, hlast⟩ := h.active run hrun hactive
      rw [hcurrent.conversationId] at haway
      refine ⟨m, heffect.shownIn.mpr (.inl ⟨hm, fun hgone => haway hgone.1⟩), hrole,
        hcurrent.of_mem (hold hrun), fun x hx hhere => ?_⟩
      rcases heffect.shownIn.mp hx with ⟨hx, -⟩ | rfl
      · exact hlast x hx hhere
      · exact absurd hhere.symm haway
    · refine ⟨_, heffect.shownIn.mpr (.inr rfl), rfl, hnew, fun x hx hhere => ?_⟩
      rcases heffect.shownIn.mp hx with ⟨hx, -⟩ | rfl
      · exact (heffect.behind x hx.1 hhere).le
      · exact le_rfl

theorem Threads.rerun {request : RunRequest} {anchor : MessageRow} {blocks : List ContentBlock}
    (h : Threads db) (hordered : Ordered db) (hidle : ¬db.HasActiveRun request.conversationId)
    (hmem : anchor ∈ db.messages) (hhere : anchor.conversationId = request.conversationId)
    (hshown : anchor.archivedAt = none) (hrole : anchor.role ≠ .assistant)
    (heffect : RerunEffect db db' request anchor blocks) : Threads db' := by
  have huser : anchor.role = .user := by
    have hsystem := hordered.role anchor hmem
    cases hcase : anchor.role <;> simp_all
  have hold {r : RunRow} (hr : r ∈ db.runs) : r ∈ db'.runs := (heffect.runs r).mpr (.inl hr)
  have hnew : CurrentRun db' { anchor with runId := some db.runs.next }
      (newRun db request anchor.id blocks) :=
    ⟨(heffect.runs _).mpr (.inr rfl), rfl, rfl, hhere.symm⟩
  -- a message shown afterwards was shown before and not cut, or is the anchor
  have hiff {m : MessageRow} := heffect.shownIn (m := m) hshown
  refine ⟨fun m hm hrole => ?_, fun a ha hrole => ?_, fun m run hm hrole hcurrent hsucceeded => ?_,
    fun a a' ha ha' hrole hrole' hrunId => ?_, fun run hrun hactive => ?_⟩
  · rcases hiff.mp hm with ⟨hm, -⟩ | rfl
    · obtain ⟨run, hcurrent⟩ := h.current m hm hrole
      exact ⟨run, hcurrent.of_mem (hold hcurrent.mem)⟩
    · exact ⟨_, hnew⟩
  · rcases hiff.mp ha with ⟨ha, hne, hkept⟩ | rfl
    · obtain ⟨m, run, hans⟩ := h.answered a ha hrole
      have hother : m.id ≠ anchor.id := by
        intro hid
        obtain rfl := Table.eq_of_key_eq hans.shown.1 hmem hid
        exact hkept ⟨hans.conversationId.trans hhere, hans.after⟩
      refine ⟨m, run, hiff.mpr (.inl ⟨hans.shown, hother, fun hgone => hkept ⟨?_, ?_⟩⟩),
        hans.user, hans.current.of_mem (hold hans.current.mem), hans.succeeded, hans.runId,
        hans.conversationId, hans.after, fun x hx hsame => ?_⟩
      · exact hans.conversationId.trans hgone.1
      · exact hgone.2.trans hans.after
      · rcases hiff.mp hx with ⟨hx, -⟩ | rfl
        · exact hans.adjacent x hx hsame
        · exact hans.adjacent anchor ⟨hmem, hshown⟩ hsame
    · exact absurd hrole (by simp [huser])
  · rcases hiff.mp hm with ⟨hm, hne, hkept⟩ | rfl
    · have hcurrent := (heffect.currentRun_iff hne).mp hcurrent
      obtain ⟨a, ha, hassistant, hrunId⟩ := h.answer m run hm hrole hcurrent hsucceeded
      have hans := h.answers_of_runId hm hcurrent ha hassistant hrunId
      have hother : a.id ≠ anchor.id := by
        intro hid
        obtain rfl := Table.eq_of_key_eq ha.1 hmem hid
        exact absurd hassistant (by simp [huser])
      refine ⟨a, hiff.mpr (.inl ⟨ha, hother, fun hgone => ?_⟩), hassistant, hrunId⟩
      have hsame : anchor.conversationId = m.conversationId := by
        rw [hhere, ← hgone.1, hans.conversationId]
      -- the answer is adjacent to its question, so the cut takes both or neither
      rcases hans.adjacent anchor ⟨hmem, hshown⟩ hsame with hbelow | habove
      · rcases hbelow.lt_or_eq with hlt | heq
        · exact hkept ⟨hsame.symm.trans hhere, hlt⟩
        · exact hne (congrArg MessageRow.id (hordered.unique anchor hmem m hm.1 hsame heq)).symm
      · have hlt := hgone.2
        omega
    · obtain rfl := hnew.run_eq hcurrent
      cases hsucceeded
  · rcases hiff.mp ha with ⟨ha, -⟩ | rfl
    · rcases hiff.mp ha' with ⟨ha', -⟩ | rfl
      · exact h.unique a a' ha ha' hrole hrole' hrunId
      · exact absurd hrole' (by simp [huser])
    · exact absurd hrole (by simp [huser])
  · rcases (heffect.runs run).mp hrun with hrun | rfl
    -- the active run is elsewhere: this conversation was idle
    · have haway : run.conversationId ≠ request.conversationId :=
        fun hhere => hidle ⟨run, hrun, hhere, hactive⟩
      obtain ⟨m, hm, hrole, hcurrent, hlast⟩ := h.active run hrun hactive
      rw [hcurrent.conversationId] at haway
      have hother : m.id ≠ anchor.id := by
        intro hid
        obtain rfl := Table.eq_of_key_eq hm.1 hmem hid
        exact haway hhere
      refine ⟨m, hiff.mpr (.inl ⟨hm, hother, fun hgone => haway hgone.1⟩), hrole,
        hcurrent.of_mem (hold hrun), fun x hx hsame => ?_⟩
      rcases hiff.mp hx with ⟨hx, -⟩ | rfl
      · exact hlast x hx hsame
      · exact absurd (hsame.symm.trans hhere) haway
    · refine ⟨_, hiff.mpr (.inr rfl), huser, hnew, fun x hx hsame => ?_⟩
      rcases hiff.mp hx with ⟨hx, -, hkept⟩ | rfl
      · by_contra hlt
        exact hkept ⟨hsame.trans hhere, by simpa using hlt⟩
      · exact le_rfl

/-! ### Runs -/

/-- The row of a run after it is written back. -/
theorem CurrentRun.moved (h : CurrentRun db m run) {run₀ : RunRow}
    (hruns : ∀ r, r ∈ db'.runs ↔ r = run' ∨ r ∈ db.runs ∧ r.id ≠ run₀.id) (hid : run'.id = run₀.id)
    (huser : run'.userMessageId = run₀.userMessageId)
    (hhere : run'.conversationId = run₀.conversationId) (hmem : run₀ ∈ db.runs) :
    ∃ r, CurrentRun db' m r ∧ (r = run' ∧ run = run₀ ∨ r = run ∧ run.id ≠ run₀.id) := by
  by_cases heq : run.id = run₀.id
  · obtain rfl := Table.eq_of_key_eq h.mem hmem heq
    exact ⟨run', ⟨(hruns run').mpr (.inl rfl), h.runId.trans (by rw [hid]),
      huser.trans h.userMessageId, hhere.trans h.conversationId⟩, .inl ⟨rfl, rfl⟩⟩
  · exact ⟨run, h.of_mem ((hruns run).mpr (.inr ⟨h.mem, heq⟩)), .inr ⟨rfl, heq⟩⟩

/-- And back. -/
theorem CurrentRun.of_moved (h : CurrentRun db' m run) {run₀ : RunRow}
    (hruns : ∀ r, r ∈ db'.runs ↔ r = run' ∨ r ∈ db.runs ∧ r.id ≠ run₀.id) (hid : run'.id = run₀.id)
    (huser : run'.userMessageId = run₀.userMessageId)
    (hhere : run'.conversationId = run₀.conversationId) (hmem : run₀ ∈ db.runs) :
    run = run' ∧ CurrentRun db m run₀ ∨ run.id ≠ run₀.id ∧ CurrentRun db m run := by
  rcases (hruns run).mp h.mem with rfl | ⟨hrun, hne⟩
  · exact .inl ⟨rfl, hmem, h.runId.trans (by rw [hid]), huser.symm.trans h.userMessageId,
      hhere.symm.trans h.conversationId⟩
  · exact .inr ⟨hne, hrun, h.runId, h.userMessageId, h.conversationId⟩

theorem ne_succeeded_of_isActiveStatus {status : RunStatus} (h : isActiveStatus status = true) :
    status ≠ .succeeded := by
  rintro rfl
  cases h

/-- An active run that moves, without succeeding. -/
theorem Threads.moved (h : Threads db) (hmoved : RunMoved db db' run run')
    (huser : run'.userMessageId = run.userMessageId)
    (hhere : run'.conversationId = run.conversationId) (hactive : isActiveStatus run.status = true)
    (hstatus : run'.status ≠ .succeeded) : Threads db' := by
  have hshown {m : MessageRow} : ShownIn db' m ↔ ShownIn db m := by
    rw [ShownIn, ShownIn, hmoved.messages]
  refine ⟨fun m hm hrole => ?_, fun a ha hrole => ?_, fun m r hm hrole hcurrent hsucceeded => ?_,
    fun a a' ha ha' => h.unique a a' (hshown.mp ha) (hshown.mp ha'), fun r hr hr' => ?_⟩
  · obtain ⟨r, hcurrent⟩ := h.current m (hshown.mp hm) hrole
    obtain ⟨r', hcurrent', -⟩ := hcurrent.moved hmoved.runs hmoved.id huser hhere hmoved.mem
    exact ⟨r', hcurrent'⟩
  · obtain ⟨m, r, hans⟩ := h.answered a (hshown.mp ha) hrole
    obtain ⟨r', hcurrent', ⟨rfl, rfl⟩ | ⟨rfl, -⟩⟩ :=
      hans.current.moved hmoved.runs hmoved.id huser hhere hmoved.mem
    · exact absurd hans.succeeded (ne_succeeded_of_isActiveStatus hactive)
    · exact ⟨m, r', hshown.mpr hans.shown, hans.user, hcurrent', hans.succeeded, hans.runId,
        hans.conversationId, hans.after, fun x hx => hans.adjacent x (hshown.mp hx)⟩
  · rcases hcurrent.of_moved hmoved.runs hmoved.id huser hhere hmoved.mem with
      ⟨rfl, -⟩ | ⟨-, hcurrent⟩
    · exact absurd hsucceeded hstatus
    · obtain ⟨a, ha, hanswer⟩ := h.answer m r (hshown.mp hm) hrole hcurrent hsucceeded
      exact ⟨a, hshown.mpr ha, hanswer⟩
  · obtain ⟨r₀, hr₀, hactive₀, hpair⟩ : ∃ r₀ ∈ db.runs, isActiveStatus r₀.status = true ∧
        (r = run' ∧ r₀ = run ∨ r = r₀ ∧ r₀.id ≠ run.id) := by
      rcases (hmoved.runs r).mp hr with rfl | ⟨hr, hne⟩
      · exact ⟨run, hmoved.mem, hactive, .inl ⟨rfl, rfl⟩⟩
      · exact ⟨r, hr, hr', .inr ⟨rfl, hne⟩⟩
    obtain ⟨m, hm, hrole, hcurrent, hlast⟩ := h.active r₀ hr₀ hactive₀
    refine ⟨m, hshown.mpr hm, hrole, ?_, fun x hx => hlast x (hshown.mp hx)⟩
    obtain ⟨r', hcurrent', hpair'⟩ :=
      hcurrent.moved hmoved.runs hmoved.id huser hhere hmoved.mem
    have heq : r = r' := by
      rcases hpair with ⟨rfl, rfl⟩ | ⟨rfl, hne⟩ <;> rcases hpair' with ⟨rfl, heq⟩ | ⟨rfl, hne'⟩
      · rfl
      · exact absurd rfl hne'
      · exact absurd (congrArg RunRow.id heq) hne
      · rfl
    exact heq ▸ hcurrent'

/-- An active run that succeeds, with its answer. -/
theorem Threads.answers {final : Message} {metadata : Json}
    {rows : List Transcript.TranscriptRow} (h : Threads db) (hordered : Ordered db)
    (heffect : AnswerEffect db db' run final metadata rows) : Threads db' := by
  have hruns := heffect.runs
  have hmem := heffect.mem
  let run' : RunRow := { run with status := .succeeded, transcript := rows }
  let answer := answerMessage db run final.text metadata
  have hshown {m : MessageRow} : ShownIn db' m ↔ ShownIn db m ∨ m = answer := heffect.shownIn
  obtain ⟨m₀, hm₀, huser₀, hcurrent₀, hlast₀⟩ := h.active run hmem heffect.active
  have hanswerHere : answer.conversationId = m₀.conversationId := hcurrent₀.conversationId
  have hbehind {m : MessageRow} (hm : ShownIn db m) (hhere : m.conversationId = m₀.conversationId) :
      m.position < answer.position :=
    position_lt_getNextMessagePosition hm.1 (hhere.trans hanswerHere.symm)
  have hans₀ : Answers db' m₀ run' answer := by
    obtain ⟨r, hcurrent, ⟨rfl, -⟩ | ⟨-, hne⟩⟩ := hcurrent₀.moved hruns rfl rfl rfl hmem
    · refine ⟨hshown.mpr (.inl hm₀), huser₀, hcurrent, rfl, rfl, hanswerHere, hbehind hm₀ rfl,
        fun x hx hhere => ?_⟩
      rcases hshown.mp hx with hx | rfl
      · exact .inl (hlast₀ x hx hhere)
      · exact .inr le_rfl
    · exact absurd rfl hne
  -- no answer of the run was there before
  have hnone {a : MessageRow} (ha : ShownIn db a) (hrole : a.role = .assistant) :
      a.runId ≠ some run.id := by
    intro hrunId
    obtain ⟨m, r, hans⟩ := h.answered a ha hrole
    have heq : r = run := Table.eq_of_key_eq hans.current.mem hmem
      (Option.eq_some_unique hans.runId hrunId)
    rw [← heq] at hcurrent₀
    exact ne_succeeded_of_isActiveStatus heffect.active (heq ▸ hans.succeeded)
  refine ⟨fun m hm hrole => ?_, fun a ha hrole => ?_, fun m r hm hrole hcurrent hsucceeded => ?_,
    fun a a' ha ha' hrole hrole' hrunId => ?_, fun r hr hr' => ?_⟩
  · rcases hshown.mp hm with hm | rfl
    · obtain ⟨r, hcurrent⟩ := h.current m hm hrole
      obtain ⟨r', hcurrent', -⟩ := hcurrent.moved hruns rfl rfl rfl hmem
      exact ⟨r', hcurrent'⟩
    · cases hrole
  · rcases hshown.mp ha with ha | rfl
    · obtain ⟨m, r, hans⟩ := h.answered a ha hrole
      obtain ⟨r', hcurrent', ⟨rfl, rfl⟩ | ⟨rfl, -⟩⟩ := hans.current.moved hruns rfl rfl rfl hmem
      · exact absurd hans.runId (hnone ha hrole)
      · refine ⟨m, r', hshown.mpr (.inl hans.shown), hans.user, hcurrent', hans.succeeded,
          hans.runId, hans.conversationId, hans.after, fun x hx hhere => ?_⟩
        rcases hshown.mp hx with hx | rfl
        · exact hans.adjacent x hx hhere
        · refine .inr (position_lt_getNextMessagePosition ha.1 ?_).le
          exact hans.conversationId.trans hhere.symm
    · exact ⟨m₀, run', hans₀⟩
  · rcases hshown.mp hm with hm | rfl
    · rcases hcurrent.of_moved hruns rfl rfl rfl hmem with ⟨rfl, -⟩ | ⟨-, hcurrent⟩
      · exact ⟨answer, hshown.mpr (.inr rfl), rfl, rfl⟩
      · obtain ⟨a, ha, hanswer⟩ := h.answer m r hm hrole hcurrent hsucceeded
        exact ⟨a, hshown.mpr (.inl ha), hanswer⟩
    · cases hrole
  · rcases hshown.mp ha with ha | rfl
    · rcases hshown.mp ha' with ha' | rfl
      · exact h.unique a a' ha ha' hrole hrole' hrunId
      · exact absurd hrunId (hnone ha hrole)
    · rcases hshown.mp ha' with ha' | rfl
      · exact absurd hrunId.symm (hnone ha' hrole')
      · rfl
  · rcases (hruns r).mp hr with rfl | ⟨hr, hne⟩
    · cases hr'
    · obtain ⟨m, hm, hrole, hcurrent, hlast⟩ := h.active r hr hr'
      refine ⟨m, hshown.mpr (.inl hm), hrole, hcurrent.of_mem ((hruns r).mpr (.inr ⟨hr, hne⟩)),
        fun x hx hhere => ?_⟩
      rcases hshown.mp hx with hx | rfl
      · exact hlast x hx hhere
      · -- the conversation of the answer has no other active run
        refine absurd (h.active_unique hordered hr hmem hr' heffect.active ?_)
          fun heq => hne (congrArg RunRow.id heq)
        exact hcurrent.conversationId.trans hhere.symm

/-- A conversation that goes takes its threads along. -/
theorem Threads.purge (h : Threads db) (conversationId : ℕ)
    (hmessages : ∀ m, m ∈ db'.messages ↔ m ∈ db.messages ∧ m.conversationId ≠ conversationId)
    (hruns : ∀ r, r ∈ db'.runs ↔ r ∈ db.runs ∧ r.conversationId ≠ conversationId) :
    Threads db' := by
  have hshown {m : MessageRow} :
      ShownIn db' m ↔ ShownIn db m ∧ m.conversationId ≠ conversationId := by
    rw [ShownIn, ShownIn, hmessages, and_right_comm]
  have hkept {m : MessageRow} {r : RunRow} (hcurrent : CurrentRun db m r)
      (hm : m.conversationId ≠ conversationId) : CurrentRun db' m r := by
    refine hcurrent.of_mem ((hruns r).mpr ⟨hcurrent.mem, ?_⟩)
    rw [hcurrent.conversationId]
    exact hm
  refine ⟨fun m hm hrole => ?_, fun a ha hrole => ?_, fun m r hm hrole hcurrent hsucceeded => ?_,
    fun a a' ha ha' => h.unique a a' (hshown.mp ha).1 (hshown.mp ha').1, fun r hr hr' => ?_⟩
  · obtain ⟨hm, haway⟩ := hshown.mp hm
    obtain ⟨r, hcurrent⟩ := h.current m hm hrole
    exact ⟨r, hkept hcurrent haway⟩
  · obtain ⟨ha, haway⟩ := hshown.mp ha
    obtain ⟨m, r, hans⟩ := h.answered a ha hrole
    rw [hans.conversationId] at haway
    exact ⟨m, r, hshown.mpr ⟨hans.shown, haway⟩, hans.user, hkept hans.current haway,
      hans.succeeded, hans.runId, hans.conversationId, hans.after,
      fun x hx => hans.adjacent x (hshown.mp hx).1⟩
  · obtain ⟨hm, haway⟩ := hshown.mp hm
    have hcurrent : CurrentRun db m r := hcurrent.of_mem ((hruns r).mp hcurrent.mem).1
    obtain ⟨a, ha, hassistant, hrunId⟩ := h.answer m r hm hrole hcurrent hsucceeded
    refine ⟨a, hshown.mpr ⟨ha, ?_⟩, hassistant, hrunId⟩
    rw [(h.answers_of_runId hm hcurrent ha hassistant hrunId).conversationId]
    exact haway
  · obtain ⟨hr, haway⟩ := (hruns r).mp hr
    obtain ⟨m, hm, hrole, hcurrent, hlast⟩ := h.active r hr hr'
    rw [hcurrent.conversationId] at haway
    exact ⟨m, hshown.mpr ⟨hm, haway⟩, hrole, hkept hcurrent haway,
      fun x hx => hlast x (hshown.mp hx).1⟩

/-- The threads are about messages and runs only. -/
theorem Threads.withConversations (h : Threads db)
    (conversations : Table Conversation Conversation.id) : Threads { db with conversations } where
  current m hm hrole := by
    obtain ⟨r, hcurrent⟩ := h.current m hm hrole
    exact ⟨r, hcurrent.of_mem hcurrent.mem⟩
  answered a ha hrole := by
    obtain ⟨m, r, hans⟩ := h.answered a ha hrole
    exact ⟨m, r, hans.shown, hans.user, hans.current.of_mem hans.current.mem, hans.succeeded,
      hans.runId, hans.conversationId, hans.after, hans.adjacent⟩
  answer m r hm hrole hcurrent := h.answer m r hm hrole (hcurrent.of_mem hcurrent.mem)
  unique := h.unique
  active r hr hactive := by
    obtain ⟨m, hm, hrole, hcurrent, hlast⟩ := h.active r hr hactive
    exact ⟨m, hm, hrole, hcurrent.of_mem hcurrent.mem, hlast⟩

/-! ### The invariant -/

/-- **Threads.** The order of the messages and their threads are kept by every step. -/
theorem TablesStep.threads (h : TablesStep loads asks db db') (hordered : Ordered db)
    (hthreads : Threads db) : Ordered db' ∧ Threads db' := by
  refine ⟨hordered.grow h.messagesGrow, ?_⟩
  cases h with
  | conversations conversations => exact hthreads.withConversations conversations
  | turn asked idle upper cut images input result =>
    obtain ⟨position, heffect⟩ := turnEffect result
    exact hthreads.turn hordered idle upper cut heffect
  | rerun asked idle mem here shown role images input result =>
    exact hthreads.rerun hordered idle mem here shown role (rerunEffect mem result)
  | advance runId status result =>
    obtain ⟨run, hactive, hstatus, hmoved⟩ := advanceRun_eq_ok result
    exact hthreads.moved hmoved rfl rfl hactive (ne_succeeded_of_isActiveStatus hstatus)
  | succeed runId transcript metadata output result =>
    obtain ⟨run, final, rows, -, -, -, -, heffect⟩ := succeedRun_eq_ok result
    exact hthreads.answers hordered heffect
  | ended runId status transcript output result =>
    obtain ⟨run, rows, hactive, hstatus, -, hmoved⟩ := endRun_eq_ok result
    refine hthreads.moved hmoved rfl rfl hactive ?_
    rcases hstatus with rfl | rfl <;> nofun
  | purge conversationId =>
    refine hthreads.purge conversationId (fun m => ?_) fun r => ?_
    · rw [Table.mem_filter, decide_eq_true_eq]
    · rw [Table.mem_filter, decide_eq_true_eq]

end IChat.Chat
