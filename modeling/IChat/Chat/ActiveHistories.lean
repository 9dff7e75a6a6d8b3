import IChat.Chat.CurrentInputs
import Mathlib.Data.List.Sort

/-!
# The history of an active run

The message of an active run is the last one that is shown, so the run's history is made of the
turns of all questions before it, in order, and of the input of the message itself.
-/

namespace IChat.Chat

open Files Conversations Transcript ConversationTables

variable {loads : String → Option Json} {u : Url.UnicodeData} {db : ConversationTables}
  {run : RunRow} {m t : MessageRow} {conversationId : ℕ}

/-! ### The visible messages -/

theorem mem_visible : m ∈ db.visible conversationId ↔
    ShownIn db m ∧ m.conversationId = conversationId := by
  rw [visible, List.mem_insertionSort, List.mem_filter, decide_eq_true_eq]
  constructor
  · rintro ⟨hmem, hhere, hshown⟩
    exact ⟨⟨hmem, hshown⟩, hhere⟩
  · rintro ⟨⟨hmem, hshown⟩, hhere⟩
    exact ⟨hmem, hhere, hshown⟩

/-- The visible messages come in the order of their positions, no two at the same. -/
theorem Ordered.pairwise_visible (h : Ordered db) :
    (db.visible conversationId).Pairwise fun m m' => m.position < m'.position := by
  have hsorted : (db.visible conversationId).Pairwise fun m m' : MessageRow =>
      m.position ≤ m'.position := List.pairwise_insertionSort _ _
  have hnodup : (db.visible conversationId).Nodup := by
    refine (List.perm_insertionSort _ _).nodup_iff.mpr ?_
    exact (List.Nodup.of_map _ db.messages.nodup).filter _
  refine (hsorted.and hnodup).imp_of_mem fun {m m'} hm hm' hboth => ?_
  obtain ⟨hmem, hhere⟩ := mem_visible.mp hm
  obtain ⟨hmem', hhere'⟩ := mem_visible.mp hm'
  refine lt_of_le_of_ne hboth.1 fun heq => hboth.2 ?_
  exact h.unique m hmem.1 m' hmem'.1 (hhere.trans hhere'.symm) heq

/-- In a sorted list whose last element is known, the others stand before it. -/
theorem eq_filter_append_of_last {rows : List MessageRow}
    (hsorted : rows.Pairwise fun m m' => m.position < m'.position) (ht : t ∈ rows)
    (hlast : ∀ m ∈ rows, m.position ≤ t.position) :
    rows = (rows.filter fun m => m.position < t.position) ++ [t] := by
  obtain ⟨before, after, rfl⟩ := List.mem_iff_append.mp ht
  obtain ⟨-, htail, hbefore⟩ := List.pairwise_append.mp hsorted
  obtain ⟨hafter, -⟩ := List.pairwise_cons.mp htail
  obtain rfl : after = [] := by
    refine List.eq_nil_iff_forall_not_mem.mpr fun m hm => ?_
    have hlt := hafter m hm
    have hle := hlast m (List.mem_append_right _ (List.mem_cons_of_mem _ hm))
    omega
  have hall : ∀ m ∈ before, m.position < t.position := fun m hm =>
    hbefore m hm t List.mem_cons_self
  rw [List.filter_append, List.filter_eq_self.mpr (by simpa using hall),
    List.filter_cons_of_neg (by simp), List.filter_nil, List.append_nil]

/-! ### The history -/

/-- The user messages that are shown before a message. -/
def priorQuestions (db : ConversationTables) (t : MessageRow) : List MessageRow :=
  (db.visible t.conversationId).filter fun m => m.role = .user ∧ m.position < t.position

theorem mem_priorQuestions : m ∈ priorQuestions db t ↔ ShownIn db m ∧
    m.conversationId = t.conversationId ∧ m.role = .user ∧ m.position < t.position := by
  rw [priorQuestions, List.mem_filter, mem_visible, decide_eq_true_eq, and_assoc]

/-- The message of an active run: the last one that is shown. -/
structure LastQuestion (db : ConversationTables) (run : RunRow) (t : MessageRow) : Prop where
  shown : ShownIn db t
  user : t.role = .user
  current : CurrentRun db t run
  last : ∀ m, ShownIn db m → m.conversationId = t.conversationId → m.position ≤ t.position

theorem Threads.lastQuestion (h : Threads db) (hrun : run ∈ db.runs)
    (hactive : isActiveStatus run.status = true) : ∃ t, LastQuestion db run t := by
  obtain ⟨t, ht, hrole, hcurrent, hlast⟩ := h.active run hrun hactive
  exact ⟨t, ht, hrole, hcurrent, hlast⟩

/-- All that is shown is before the last question. -/
theorem LastQuestion.historyRows_eq (h : LastQuestion db run t) :
    db.historyRows run t = db.visible t.conversationId := by
  rw [historyRows, h.current.conversationId]
  refine List.filter_eq_self.mpr fun m hm => ?_
  obtain ⟨hshown, hhere⟩ := mem_visible.mp hm
  exact decide_eq_true (h.last m hshown hhere)

theorem LastQuestion.historyRows (h : LastQuestion db run t) (hdb : Ordered db) :
    HistoryRows db run t (db.visible t.conversationId) where
  shown _ hm := (mem_visible.mp hm).1
  here _ hm := (mem_visible.mp hm).2
  last _ hm := h.last _ (mem_visible.mp hm).1 (mem_visible.mp hm).2
  closed _ hm _ hx hhere _ := mem_visible.mpr ⟨hx, hhere.trans (mem_visible.mp hm).2⟩
  sorted := hdb.pairwise_visible
  current := h.current

/-- The questions of a conversation are those before its last one, and that one. -/
theorem LastQuestion.questions_eq (h : LastQuestion db run t) (hdb : Ordered db) :
    ((db.visible t.conversationId).filter fun m => m.role = .user) =
      priorQuestions db t ++ [t] := by
  have hmem : t ∈ (db.visible t.conversationId).filter fun m => m.role = .user :=
    List.mem_filter.mpr ⟨mem_visible.mpr ⟨h.shown, rfl⟩, decide_eq_true h.user⟩
  have hsplit := eq_filter_append_of_last (hdb.pairwise_visible.filter _) hmem fun m hm => by
    obtain ⟨hshown, hhere⟩ := mem_visible.mp (List.mem_filter.mp hm).1
    exact h.last m hshown hhere
  rw [List.filter_filter] at hsplit
  refine hsplit.trans (congrArg (· ++ [t]) (List.filter_congr fun m _ => ?_))
  rw [Bool.and_comm, ← Bool.decide_and]

/-- **The history of an active run.** It is made of the turns of the questions before the run's own,
and of the input of that. -/
theorem loadConversationHistory_active (hwf : WellFormed loads db)
    (hactive : isActiveStatus run.status = true) (h : LastQuestion db run t) :
    db.loadConversationHistory loads u run.id =
      .ok ((priorQuestions db t).flatMap
        (turnMessages loads u db (db.visible t.conversationId) run) ++
          [⟨.user, recordedInput loads run⟩]) := by
  have hown : turnMessages loads u db (db.visible t.conversationId) run t =
      [⟨.user, recordedInput loads run⟩] := by
    rw [turnMessages_eq h.current, recordedTurn, if_neg (ne_succeeded_of_isActiveStatus hactive)]
  rw [loadConversationHistory, Table.get?_key h.current.mem]
  simp only [h.current.userMessageId]
  rw [Table.get?_key h.shown.1]
  simp only [h.historyRows_eq]
  rw [buildHistory_eq hwf (h.historyRows hwf.ordered) h.shown, h.questions_eq hwf.ordered,
    List.flatMap_append, List.flatMap_singleton, hown]

end IChat.Chat
