import IChat.General.StepSystem
import IChat.Runs.Database
import Mathlib.Data.List.InsertIdx
import Mathlib.Data.List.Perm.Basic

/-!
# The conversation index

The reducer of the sidebar: the list of recent conversations and the list of the pinned ones, the
unread marks and the titles that are awaited. Its actions carry what the server returned to
requests that may have been sent in any order, so a list can be applied after a pin or an unpin
that it does not know of.

`shownOnce_throughout_iff`: no conversation is ever shown twice exactly in the runs in which no
further page of the recent list brings a conversation that is pinned by then. The other handlers
drop the pinned conversations from a late recent list; the one for further pages compares with the
recent list alone.

`Date.parse` is a parameter, absent for `NaN`; nothing is assumed of it.
-/

namespace IChat.Frontend

/-- `ConversationActiveRun`. -/
structure ConversationActiveRun where
  id : String
  status : RunStatus
  deriving DecidableEq

/-- `ConversationResponse`, with the fields the reducer reads or writes. -/
structure ConversationResponse where
  id : String
  title : Option String
  pinnedAt : Option String
  favoritedAt : Option String
  updatedAt : String
  activeRun : Option ConversationActiveRun
  deriving DecidableEq

/-- The ids of a list of conversations, in its order. -/
def ids (l : List ConversationResponse) : List String := l.map ConversationResponse.id

/-- A list the server can return. -/
structure ConversationList where
  rows : List ConversationResponse
  distinct : (ids rows).Nodup

inductive IndexStatus where
  | idle
  | loading
  | loadingMore
  | error
  deriving DecidableEq

/-- `ConversationIndexState`. -/
structure ConversationIndexState where
  items : List ConversationResponse
  pinnedItems : List ConversationResponse
  selectedId : Option String
  draftId : Option String
  pendingTitleIds : List String
  unreadIds : List String
  status : IndexStatus
  hasMore : Bool
  deriving DecidableEq

/-- `initialConversationIndexState`. -/
def initialConversationIndexState : ConversationIndexState where
  items := []
  pinnedItems := []
  selectedId := none
  draftId := none
  pendingTitleIds := []
  unreadIds := []
  status := .loading
  hasMore := true

/-- `ConversationIndexAction`, the reset of the application, and the actions of the other
reducers. -/
inductive ConversationIndexAction where
  | listLoading
  | listLoaded (items : ConversationList) (pinned : Option ConversationList)
      (hasMore : Option Bool)
  | listLoadingMore
  | listPageLoaded (items : ConversationList) (hasMore : Bool)
  | listError
  | listSynced (items : ConversationList) (pinned : Option ConversationList)
  | markerChanged (conversation : ConversationResponse)
  | runStarted (conversation : ConversationResponse) (run : ConversationActiveRun)
      (updatedAt : String)
  | runFinished (id : String)
  | selected (id : Option String)
  | renamed (conversation : ConversationResponse)
  | removed (id : String)
  | draftCreated (id : String)
  | draftActivated
  | titlePending (id : String)
  | titleResolved (id : String)
  | reset
  | other

/-! ### The helpers -/

/-- The white space and line terminators `String.prototype.trim` removes. -/
def isJsSpace (c : Char) : Bool :=
  c.toNat ∈ [0x9, 0xA, 0xB, 0xC, 0xD, 0x20, 0xA0, 0x1680, 0x2028, 0x2029, 0x202F, 0x205F, 0x3000,
    0xFEFF] || (0x2000 ≤ c.toNat && c.toNat ≤ 0x200A)

/-- `title?.trim()` is truthy. -/
def hasTitle (title : Option String) : Bool :=
  match title with
  | some title => title.toList.any fun c => !isJsSpace c
  | none => false

/-- `Date.parse(a) < Date.parse(b)`; every comparison with `NaN` is false. -/
def dateLt (dateParse : String → Option ℤ) (a b : String) : Bool :=
  match dateParse a, dateParse b with
  | some a, some b => a < b
  | _, _ => false

/-- `new Map(l.map((c) => [c.id, c])).get(id)`: the last row with the id. -/
def byId (l : List ConversationResponse) (id : String) : Option ConversationResponse :=
  l.reverse.find? fun c => c.id = id

/-- `markUnread`. -/
def markUnread (unreadIds : List String) (id : String) (selectedId : Option String) :
    List String :=
  if some id = selectedId ∨ id ∈ unreadIds then unreadIds else unreadIds ++ [id]

/-- `mergeFirstPage`. -/
def mergeFirstPage (dateParse : String → Option ℤ) (current page : List ConversationResponse) :
    List ConversationResponse :=
  let merged := page.map fun incoming =>
    match byId current incoming.id with
    | some row => if dateLt dateParse incoming.updatedAt row.updatedAt then row else incoming
    | none => incoming
  merged ++ current.filter fun c => c.id ∉ ids page

/-- `withPinned`. -/
def withPinned (state : ConversationIndexState) (pinned : Option (List ConversationResponse)) :
    ConversationIndexState :=
  let pinnedItems := pinned.getD state.pinnedItems
  { state with
    pinnedItems := pinnedItems
    items := state.items.filter fun c => c.id ∉ ids pinnedItems }

/-- `l.splice(index === -1 ? l.length : index, 0, row)`, where `index` is that of the first row
that satisfies `p`. -/
def spliceBefore (p : ConversationResponse → Bool) (row : ConversationResponse)
    (l : List ConversationResponse) : List ConversationResponse :=
  l.insertIdx (l.findIdx p) row

/-- `applyMarkers`. -/
def applyMarkers (dateParse : String → Option ℤ) (state : ConversationIndexState)
    (incoming : ConversationResponse) : ConversationIndexState :=
  let found := (state.pinnedItems.find? fun c => c.id = incoming.id).or
    (state.items.find? fun c => c.id = incoming.id)
  let row := { found.getD incoming with
    pinnedAt := incoming.pinnedAt, favoritedAt := incoming.favoritedAt }
  let pinnedItems := state.pinnedItems.filter fun c => c.id ≠ row.id
  let items := state.items.filter fun c => c.id ≠ row.id
  if row.pinnedAt.getD "" ≠ "" then
    let older := fun c : ConversationResponse =>
      dateLt dateParse (c.pinnedAt.getD "") (row.pinnedAt.getD "")
    { state with pinnedItems := spliceBefore older row pinnedItems, items := items }
  else if found = none then state
  else
    let older := fun c : ConversationResponse => dateLt dateParse c.updatedAt row.updatedAt
    -- past the loaded pages it waits for a later page
    if items.any older = false ∧ state.hasMore = true then
      { state with pinnedItems := pinnedItems, items := items }
    else { state with pinnedItems := pinnedItems, items := spliceBefore older row items }

/-- `reconcileList`. -/
def reconcileList (prev next : ConversationIndexState) : ConversationIndexState :=
  let nextItems := next.items ++ next.pinnedItems
  let wasRunning := fun c : ConversationResponse =>
    ((byId (prev.items ++ prev.pinnedItems) c.id).bind ConversationResponse.activeRun).isSome
  let titled := ids (nextItems.filter fun c => hasTitle c.title)
  { next with
    unreadIds := nextItems.foldl
      (fun unreadIds item =>
        if wasRunning item && item.activeRun.isNone then
          markUnread unreadIds item.id next.selectedId
        else unreadIds) next.unreadIds
    pendingTitleIds := next.pendingTitleIds.filter fun id => id ∉ titled }

/-! ### The reducer -/

/-- The `conversations/runStarted` case. -/
def startRun (state : ConversationIndexState) (conversation : ConversationResponse)
    (run : ConversationActiveRun) (updatedAt : String) : ConversationIndexState :=
  match state.pinnedItems.find? fun c => c.id = conversation.id with
  | some pinned =>
    let started := { pinned with activeRun := some run, updatedAt := updatedAt }
    { state with
      pinnedItems := state.pinnedItems.map fun c => if c.id = started.id then started else c }
  | none =>
    let existing := state.items.find? fun c => c.id = conversation.id
    let started := { existing.getD conversation with
      activeRun := some run, updatedAt := updatedAt }
    let needsTitle := !hasTitle started.title && started.id ∉ state.pendingTitleIds
    { state with
      items := started :: state.items.filter fun c => c.id ≠ started.id
      pendingTitleIds :=
        if needsTitle then state.pendingTitleIds ++ [started.id] else state.pendingTitleIds }

/-- The `conversations/listPageLoaded` case. -/
def appendPage (state : ConversationIndexState) (items : List ConversationResponse)
    (hasMore : Bool) : ConversationIndexState :=
  { state with
    items := state.items ++ items.filter fun c => c.id ∉ ids state.items
    hasMore := hasMore
    status := .idle }

/-- `conversationIndexReducer`. -/
def conversationIndexReducer (dateParse : String → Option ℤ) (state : ConversationIndexState) :
    ConversationIndexAction → ConversationIndexState
  | .listLoading => { state with status := .loading }
  | .listLoaded items pinned hasMore =>
    reconcileList state
      (withPinned
        { state with items := items.rows, hasMore := hasMore.getD false, status := .idle }
        (pinned.map ConversationList.rows))
  | .listSynced items pinned =>
    reconcileList state
      (withPinned { state with items := mergeFirstPage dateParse state.items items.rows }
        (pinned.map fun pinned =>
          (mergeFirstPage dateParse state.pinnedItems pinned.rows).filter fun c =>
            c.id ∈ ids pinned.rows))
  | .markerChanged conversation => applyMarkers dateParse state conversation
  | .runStarted conversation run updatedAt => startRun state conversation run updatedAt
  | .runFinished id =>
    let finish := fun c : ConversationResponse =>
      if c.id = id ∧ c.activeRun.isSome then { c with activeRun := none } else c
    { state with
      items := state.items.map finish
      pinnedItems := state.pinnedItems.map finish
      unreadIds := markUnread state.unreadIds id state.selectedId }
  | .listLoadingMore => { state with status := .loadingMore }
  | .listPageLoaded items hasMore => appendPage state items.rows hasMore
  | .listError => { state with status := .error }
  | .selected id =>
    { state with
      selectedId := id, unreadIds := state.unreadIds.filter fun unread => some unread ≠ id }
  | .renamed conversation =>
    let rename := fun c : ConversationResponse =>
      if c.id = conversation.id then { conversation with activeRun := c.activeRun } else c
    { state with
      items := state.items.map rename
      pinnedItems := state.pinnedItems.map rename }
  | .removed id =>
    { state with
      items := state.items.filter fun c => c.id ≠ id
      pinnedItems := state.pinnedItems.filter fun c => c.id ≠ id
      unreadIds := state.unreadIds.filter fun unread => unread ≠ id }
  | .draftCreated id => { state with draftId := some id }
  | .draftActivated => { state with draftId := none }
  | .titlePending id =>
    if id ∈ state.pendingTitleIds then state
    else { state with pendingTitleIds := state.pendingTitleIds ++ [id] }
  | .titleResolved id =>
    { state with pendingTitleIds := state.pendingTitleIds.filter fun pending => pending ≠ id }
  | .reset => initialConversationIndexState
  | .other => state

/-- The reducer as a step system in which every action is enabled. -/
def indexStep (dateParse : String → Option ℤ) (state : ConversationIndexState)
    (action : ConversationIndexAction) : Option ConversationIndexState :=
  some (conversationIndexReducer dateParse state action)

/-! ### The property -/

/-- Every conversation is shown once, and no mark is kept twice. -/
structure ShownOnce (state : ConversationIndexState) : Prop where
  rows : (ids (state.items ++ state.pinnedItems)).Nodup
  unread : state.unreadIds.Nodup
  pendingTitles : state.pendingTitleIds.Nodup

/-- A further page of the recent list brings a conversation that is pinned. -/
def BringsPinned (state : ConversationIndexState) : ConversationIndexAction → Prop
  | .listPageLoaded items _ => ∃ id ∈ ids items.rows, id ∈ ids state.pinnedItems
  | _ => False

/-- The two lists have distinct ids, and none in common. -/
structure Separate (items pinnedItems : List ConversationResponse) : Prop where
  recent : (ids items).Nodup
  pinned : (ids pinnedItems).Nodup
  disjoint : ∀ id ∈ ids items, id ∉ ids pinnedItems

section Lists

variable {l current page items pinnedItems : List ConversationResponse}
  {row : ConversationResponse} {id : String} {dateParse : String → Option ℤ}

@[simp] theorem ids_append : ids (items ++ pinnedItems) = ids items ++ ids pinnedItems :=
  List.map_append

theorem nodup_append_iff_separate :
    (ids (items ++ pinnedItems)).Nodup ↔ Separate items pinnedItems := by
  rw [ids_append, List.nodup_append']
  constructor
  · rintro ⟨hitems, hpinned, hdisjoint⟩
    exact ⟨hitems, hpinned, fun id hid => List.disjoint_left.mp hdisjoint hid⟩
  · rintro ⟨hitems, hpinned, hdisjoint⟩
    exact ⟨hitems, hpinned, List.disjoint_left.mpr fun id hid => hdisjoint id hid⟩

/-- The rows whose id is not in a list are left. -/
theorem mem_ids_filter {gone : List String} :
    id ∈ ids (l.filter fun c => c.id ∉ gone) ↔ id ∈ ids l ∧ id ∉ gone := by
  simp only [ids, List.mem_map, List.mem_filter, decide_eq_true_eq]
  constructor
  · rintro ⟨c, ⟨hc, hp⟩, rfl⟩
    exact ⟨⟨c, hc, rfl⟩, hp⟩
  · rintro ⟨⟨c, hc, rfl⟩, hp⟩
    exact ⟨c, ⟨hc, hp⟩, rfl⟩

theorem nodup_ids_filter {p : ConversationResponse → Bool} (h : (ids l).Nodup) :
    (ids (l.filter p)).Nodup :=
  h.sublist (List.filter_sublist.map _)

/-- Rows are replaced by rows with their id. -/
theorem ids_map {f : ConversationResponse → ConversationResponse} (h : ∀ c, (f c).id = c.id) :
    ids (l.map f) = ids l := by
  simp only [ids, List.map_map]
  exact List.map_congr_left fun c _ => h c

theorem id_of_byId (h : byId l id = some row) : row.id = id := by
  simpa using List.find?_some h

/-- A merged list has the ids of the page, followed by the others. -/
theorem ids_mergeFirstPage : ids (mergeFirstPage dateParse current page) =
    ids page ++ ids (current.filter fun c => c.id ∉ ids page) := by
  have hmerged : ∀ incoming : ConversationResponse,
      (match byId current incoming.id with
      | some row => if dateLt dateParse incoming.updatedAt row.updatedAt then row else incoming
      | none => incoming).id = incoming.id := by
    intro incoming
    split
    · rename_i row hrow
      split
      · exact id_of_byId hrow
      · rfl
    · rfl
  unfold mergeFirstPage
  dsimp only
  rw [ids_append]
  exact congrArg (· ++ _) (ids_map hmerged)

theorem nodup_mergeFirstPage (hcurrent : (ids current).Nodup) (hpage : (ids page).Nodup) :
    (ids (mergeFirstPage dateParse current page)).Nodup := by
  rw [ids_mergeFirstPage]
  refine List.nodup_append'.mpr ⟨hpage, nodup_ids_filter hcurrent, ?_⟩
  exact List.disjoint_left.mpr fun id hid hid' => (mem_ids_filter.mp hid').2 hid

theorem ids_spliceBefore_perm (p : ConversationResponse → Bool) :
    (ids (spliceBefore p row l)).Perm (row.id :: ids l) :=
  (List.perm_insertIdx row l List.findIdx_le_length).map ConversationResponse.id

/-- A row joins a list that does not have its id. -/
theorem Separate.splice_items {p : ConversationResponse → Bool} (h : Separate items pinnedItems)
    (hitems : row.id ∉ ids items) (hpinned : row.id ∉ ids pinnedItems) :
    Separate (spliceBefore p row items) pinnedItems where
  recent := (ids_spliceBefore_perm p).nodup_iff.mpr (List.nodup_cons.mpr ⟨hitems, h.recent⟩)
  pinned := h.pinned
  disjoint id hid := by
    rcases List.mem_cons.mp ((ids_spliceBefore_perm p).mem_iff.mp hid) with rfl | hold
    · exact hpinned
    · exact h.disjoint id hold

theorem Separate.splice_pinned {p : ConversationResponse → Bool} (h : Separate items pinnedItems)
    (hitems : row.id ∉ ids items) (hpinned : row.id ∉ ids pinnedItems) :
    Separate items (spliceBefore p row pinnedItems) where
  recent := h.recent
  pinned := (ids_spliceBefore_perm p).nodup_iff.mpr (List.nodup_cons.mpr ⟨hpinned, h.pinned⟩)
  disjoint id hid hid' := by
    rcases List.mem_cons.mp ((ids_spliceBefore_perm p).mem_iff.mp hid') with rfl | hold
    · exact hitems hid
    · exact h.disjoint id hid hold

/-- The rows with one id leave both lists. -/
theorem Separate.filter (h : Separate items pinnedItems) (p q : ConversationResponse → Bool) :
    Separate (items.filter p) (pinnedItems.filter q) where
  recent := nodup_ids_filter h.recent
  pinned := nodup_ids_filter h.pinned
  disjoint id hid hid' :=
    h.disjoint id ((List.filter_sublist.map _).subset hid) ((List.filter_sublist.map _).subset hid')

/-- The pinned rows leave the recent list. -/
theorem separate_of_filter (hitems : (ids items).Nodup) (hpinned : (ids pinnedItems).Nodup) :
    Separate (items.filter fun c => c.id ∉ ids pinnedItems) pinnedItems where
  recent := nodup_ids_filter hitems
  pinned := hpinned
  disjoint _ hid := (mem_ids_filter.mp hid).2

/-- A further page whose rows are not pinned. -/
theorem Separate.append_page (h : Separate items pinnedItems) (hpage : (ids page).Nodup)
    (hnew : ∀ id ∈ ids page, id ∉ ids pinnedItems) :
    Separate (items ++ page.filter fun c => c.id ∉ ids items) pinnedItems where
  recent := by
    rw [ids_append]
    refine List.nodup_append'.mpr ⟨h.recent, nodup_ids_filter hpage, ?_⟩
    exact List.disjoint_left.mpr fun id hid hid' => (mem_ids_filter.mp hid').2 hid
  pinned := h.pinned
  disjoint id hid := by
    rw [ids_append] at hid
    rcases List.mem_append.mp hid with hold | happended
    · exact h.disjoint id hold
    · exact hnew id (mem_ids_filter.mp happended).1

end Lists

theorem nodup_markUnread {unreadIds : List String} {id : String} {selectedId : Option String}
    (h : unreadIds.Nodup) : (markUnread unreadIds id selectedId).Nodup := by
  unfold markUnread
  split
  · exact h
  · rename_i hnew
    obtain ⟨-, hnotMem⟩ := not_or.mp hnew
    simpa using h.concat hnotMem

/-! ### The handlers -/

section Handlers

variable {dateParse : String → Option ℤ} {state next : ConversationIndexState}
  {action : ConversationIndexAction} {actions : List ConversationIndexAction}

theorem ShownOnce.separate (h : ShownOnce state) : Separate state.items state.pinnedItems :=
  nodup_append_iff_separate.mp h.rows

/-- New lists, with the marks as they were. -/
theorem ShownOnce.withLists (h : ShownOnce state)
    (hlists : Separate next.items next.pinnedItems) (hunread : next.unreadIds = state.unreadIds)
    (htitles : next.pendingTitleIds = state.pendingTitleIds) : ShownOnce next where
  rows := nodup_append_iff_separate.mpr hlists
  unread := hunread ▸ h.unread
  pendingTitles := htitles ▸ h.pendingTitles

/-- A fresh recent list and, when there is one, a fresh pinned list. -/
theorem ShownOnce.withPinned {pinned : Option (List ConversationResponse)} (h : ShownOnce state)
    (hitems : (ids next.items).Nodup) (hpinned : ∀ l ∈ pinned, (ids l).Nodup)
    (hkept : next.pinnedItems = state.pinnedItems) (hunread : next.unreadIds = state.unreadIds)
    (htitles : next.pendingTitleIds = state.pendingTitleIds) :
    ShownOnce (Frontend.withPinned next pinned) := by
  refine h.withLists (separate_of_filter hitems ?_) hunread htitles
  cases pinned with
  | none => exact hkept ▸ h.separate.pinned
  | some l => exact hpinned l rfl

/-- Reconciling with the previous state touches the marks only. -/
theorem ShownOnce.reconcileList (h : ShownOnce next) :
    ShownOnce (Frontend.reconcileList state next) where
  rows := h.rows
  unread := by
    unfold Frontend.reconcileList
    dsimp only
    refine List.foldlRecOn _ _ h.unread fun unreadIds hunread item _ => ?_
    split
    · exact nodup_markUnread hunread
    · exact hunread
  pendingTitles := h.pendingTitles.filter _

theorem ShownOnce.applyMarkers (h : ShownOnce state) (incoming : ConversationResponse) :
    ShownOnce (Frontend.applyMarkers dateParse state incoming) := by
  unfold Frontend.applyMarkers
  dsimp only
  set row := { ((state.pinnedItems.find? fun c => c.id = incoming.id).or
    (state.items.find? fun c => c.id = incoming.id)).getD incoming with
      pinnedAt := incoming.pinnedAt, favoritedAt := incoming.favoritedAt } with hrow
  -- the row has left both lists before it joins one of them
  have hgone : ∀ l : List ConversationResponse, row.id ∉ ids (l.filter fun c => c.id ≠ row.id) := by
    intro l hmem
    obtain ⟨c, hc, hid⟩ := List.mem_map.mp hmem
    exact absurd hid (of_decide_eq_true (List.mem_filter.mp hc).2)
  have hleft := h.separate.filter (fun c => c.id ≠ row.id) fun c => c.id ≠ row.id
  split_ifs
  · exact h.withLists (hleft.splice_pinned (hgone _) (hgone _)) rfl rfl
  · exact h
  · exact h.withLists hleft rfl rfl
  · exact h.withLists (hleft.splice_items (hgone _) (hgone _)) rfl rfl

theorem ShownOnce.startRun (h : ShownOnce state) (conversation : ConversationResponse)
    (run : ConversationActiveRun) (updatedAt : String) :
    ShownOnce (Frontend.startRun state conversation run updatedAt) := by
  unfold Frontend.startRun
  split
  · refine h.withLists ?_ rfl rfl
    have hids : ∀ pinned : ConversationResponse, ids (state.pinnedItems.map fun c =>
        if c.id = pinned.id then { pinned with activeRun := some run, updatedAt := updatedAt }
        else c) = ids state.pinnedItems := by
      intro pinned
      refine ids_map fun c => ?_
      split
      · rename_i hid
        exact hid.symm
      · rfl
    exact ⟨h.separate.recent, by rw [hids]; exact h.separate.pinned, by
      rw [hids]; exact h.separate.disjoint⟩
  · rename_i hnone
    dsimp only
    set existing := state.items.find? fun c => c.id = conversation.id with hexisting
    have hid : (existing.getD conversation).id = conversation.id := by
      cases hfound : existing with
      | none => rfl
      | some =>
        have hsome := List.find?_some (hexisting.symm.trans hfound)
        exact of_decide_eq_true hsome
    have hpinned : conversation.id ∉ ids state.pinnedItems := by
      intro hmem
      obtain ⟨c, hc, heq⟩ := List.mem_map.mp hmem
      exact absurd heq (by simpa using List.find?_eq_none.mp hnone c hc)
    refine ⟨nodup_append_iff_separate.mpr ⟨?_, h.separate.pinned, ?_⟩, h.unread, ?_⟩
    · refine List.nodup_cons.mpr ⟨fun hmem => ?_, nodup_ids_filter h.separate.recent⟩
      obtain ⟨c, hc, heq⟩ := List.mem_map.mp hmem
      exact absurd heq (of_decide_eq_true (List.mem_filter.mp hc).2)
    · intro id hmem
      rcases List.mem_cons.mp hmem with rfl | hold
      · exact hid ▸ hpinned
      · exact h.separate.disjoint id ((List.filter_sublist.map _).subset hold)
    · split
      · rename_i hneeds
        have hnotMem := of_decide_eq_true (Bool.and_eq_true_iff.mp hneeds).2
        simpa using h.pendingTitles.concat hnotMem
      · exact h.pendingTitles

/-- **Step lemma.** Every action keeps the rows apart, unless a further page brings a pinned
conversation. -/
theorem ShownOnce.reduce (h : ShownOnce state) (hpage : ¬BringsPinned state action) :
    ShownOnce (conversationIndexReducer dateParse state action) := by
  have hkeep : ∀ {f : ConversationResponse → ConversationResponse}, (∀ c, (f c).id = c.id) →
      Separate (state.items.map f) (state.pinnedItems.map f) := by
    intro f hf
    exact ⟨by rw [ids_map hf]; exact h.separate.recent, by rw [ids_map hf]; exact h.separate.pinned,
      by rw [ids_map hf, ids_map hf]; exact h.separate.disjoint⟩
  cases action with
  | listLoaded items pinned hasMore =>
    let loaded : ConversationIndexState :=
      { state with items := items.rows, hasMore := hasMore.getD false, status := .idle }
    have hloaded : (ids loaded.items).Nodup := items.distinct
    refine (h.withPinned hloaded (fun l hl => ?_) rfl rfl rfl).reconcileList
    obtain ⟨list, -, rfl⟩ := Option.map_eq_some_iff.mp hl
    exact list.distinct
  | listSynced items pinned =>
    let synced : ConversationIndexState :=
      { state with items := mergeFirstPage dateParse state.items items.rows }
    have hsynced : (ids synced.items).Nodup :=
      nodup_mergeFirstPage h.separate.recent items.distinct
    refine (h.withPinned hsynced (fun l hl => ?_) rfl rfl rfl).reconcileList
    obtain ⟨list, -, rfl⟩ := Option.map_eq_some_iff.mp hl
    exact nodup_ids_filter (nodup_mergeFirstPage h.separate.pinned list.distinct)
  | markerChanged conversation => exact h.applyMarkers conversation
  | runStarted conversation run updatedAt => exact h.startRun conversation run updatedAt
  | runFinished =>
    refine ⟨nodup_append_iff_separate.mpr (hkeep fun c => ?_), nodup_markUnread h.unread,
      h.pendingTitles⟩
    split <;> rfl
  | listPageLoaded items =>
    refine h.withLists (h.separate.append_page items.distinct fun id hid hpinned => ?_) rfl rfl
    -- the condition: the page brings no conversation that is pinned
    exact hpage ⟨id, hid, hpinned⟩
  | selected => exact ⟨h.rows, h.unread.filter _, h.pendingTitles⟩
  | renamed =>
    refine h.withLists (hkeep fun c => ?_) rfl rfl
    split
    · rename_i hid
      exact hid.symm
    · rfl
  | removed =>
    exact ⟨nodup_append_iff_separate.mpr (h.separate.filter _ _), h.unread.filter _,
      h.pendingTitles⟩
  | titlePending =>
    simp only [conversationIndexReducer]
    split
    · exact h
    · rename_i hnotMem
      exact ⟨h.rows, h.unread, by simpa using h.pendingTitles.concat hnotMem⟩
  | titleResolved => exact ⟨h.rows, h.unread, h.pendingTitles.filter _⟩
  | reset => exact ⟨List.nodup_nil, List.nodup_nil, List.nodup_nil⟩
  | listLoading | listLoadingMore | listError | draftCreated | draftActivated | other =>
    exact ⟨h.rows, h.unread, h.pendingTitles⟩

/-- A page that brings a pinned conversation shows it twice. -/
theorem not_shownOnce_of_bringsPinned (h : ShownOnce state) (hpage : BringsPinned state action) :
    ¬ShownOnce (conversationIndexReducer dateParse state action) := by
  cases action with
  | listPageLoaded items =>
    obtain ⟨id, hid, hpinned⟩ := hpage
    intro hnext
    refine hnext.separate.disjoint id ?_ hpinned
    have hnew : id ∉ ids state.items := fun hold => h.separate.disjoint id hold hpinned
    show id ∈ ids (state.items ++ items.rows.filter fun c => c.id ∉ ids state.items)
    rw [ids_append]
    exact List.mem_append_right _ (mem_ids_filter.mpr ⟨hid, hnew⟩)
  | _ => exact hpage.elim

end Handlers

/-! ### Every order of arrival -/

/-- **Each conversation once.** In every sequence of actions, the states reached all show each
conversation once and keep no mark twice exactly when no further page of the recent list brings a
conversation that is pinned at that moment. -/
theorem shownOnce_throughout_iff (dateParse : String → Option ℤ)
    (actions : List ConversationIndexAction) :
    StepSystem.Throughout (indexStep dateParse) ShownOnce initialConversationIndexState actions ↔
      StepSystem.Along (indexStep dateParse) (fun state action => ¬BringsPinned state action)
        initialConversationIndexState actions := by
  have hinit : ShownOnce initialConversationIndexState :=
    ⟨List.nodup_nil, List.nodup_nil, List.nodup_nil⟩
  have hstep : ∀ state action next, ShownOnce state → ¬BringsPinned state action →
      indexStep dateParse state action = some next → ShownOnce next := by
    intro state action next h hpage hnext
    cases hnext
    exact h.reduce hpage
  have hruns : ∀ actions : List ConversationIndexAction, ∀ state, ∃ last,
      StepSystem.run (indexStep dateParse) state actions = some last := by
    intro actions
    induction actions with
    | nil => exact fun state => ⟨state, rfl⟩
    | cons action actions ih =>
      exact fun state => ih (conversationIndexReducer dateParse state action)
  obtain ⟨last, hrun⟩ := hruns actions initialConversationIndexState
  constructor
  · intro hall
    refine (StepSystem.along_iff_forall_split hrun).mpr fun before action after state hsplit
      hbefore hpage => ?_
    have hshown := hall before (action :: after) state hsplit hbefore
    refine @not_shownOnce_of_bringsPinned dateParse state action hshown hpage ?_
    refine hall (before ++ [action]) after _ (by simp [hsplit]) ?_
    exact StepSystem.run_append.mpr ⟨state, hbefore, rfl⟩
  · rintro halong before after state rfl hbefore
    obtain ⟨halong, -⟩ := (StepSystem.along_append hbefore).mp halong
    exact StepSystem.run_invariant_along hstep hinit halong hbefore

/-- A row of the lists. -/
def indexRow (id : String) (pinnedAt : Option String) : ConversationResponse where
  id := id
  title := some "Notes"
  pinnedAt := pinnedAt
  favoritedAt := none
  updatedAt := "2026-05-01T10:00:00Z"
  activeRun := none

/-- A full page of recent conversations. -/
def fullPage : ConversationList where
  rows := (List.range 30).map fun n => indexRow (String.ofList (List.replicate (n + 1) 'c')) none
  distinct := by decide +kernel

/-- A conversation further down is opened from the search and pinned while the page that has it is
on its way. -/
def lateFurtherPage : List ConversationIndexAction :=
  [.listLoaded fullPage (some ⟨[], List.nodup_nil⟩) (some true), .selected (some "x"),
    .listLoadingMore, .markerChanged (indexRow "x" (some "2026-05-02T10:00:00Z")),
    .listPageLoaded ⟨[indexRow "x" none], List.nodup_singleton _⟩ false]

theorem lateFurtherPage_shows_twice :
    ∃ state, StepSystem.run (indexStep fun _ => none) initialConversationIndexState
        lateFurtherPage = some state ∧
      "x" ∈ ids state.items ∧ "x" ∈ ids state.pinnedItems ∧
      ¬StepSystem.Throughout (indexStep fun _ => none) ShownOnce initialConversationIndexState
        lateFurtherPage := by
  obtain ⟨state, hrun, hitems, hpinned⟩ :
      ∃ state, StepSystem.run (indexStep fun _ => none) initialConversationIndexState
        lateFurtherPage = some state ∧ "x" ∈ ids state.items ∧ "x" ∈ ids state.pinnedItems :=
    StepSystem.exists_run (by decide +kernel)
  refine ⟨state, hrun, hitems, hpinned, fun hall => ?_⟩
  have hshown := hall lateFurtherPage [] state (by simp) hrun
  exact hshown.separate.disjoint "x" hitems hpinned

end IChat.Frontend
