import IChat.Conversations.SearchCursor
import IChat.Conversations.SearchSnippets
import IChat.General.Keyset
import Mathlib.Data.Prod.Lex

/-!
# Pages of the history search

`search_conversations`, and what a client sees that follows `next_cursor` while the tables change.
The rows of a conversation keep their ids and their account; everything else may change between two
pages, and rows come and go.

* `SearchWalk.exists_outcome`: following the cursors ends;
* `searchWalk_spec`: what is found on the way stands in strictly decreasing order of
  `(updated_at, id)`. A walk that reaches the last page has every conversation once that matches
  throughout; one that does not has lost the row of its boundary. Its cursors are accepted with
  their own account, query and size only, and give their boundary back.
-/

namespace IChat.Conversations

/-- The columns of `conversations` that the search reads, with the messages. -/
structure SearchConversation where
  id : ℕ
  publicId : Uuid
  userId : ℕ
  title : Option (List Char)
  searchTitle : Option (List Char)
  searchTextVersion : Option ℕ
  updatedAt : Datetime
  deletedAt : Option Datetime
  deletionDueAt : Option Datetime
  activatedAt : Option Datetime
  messages : List SearchMessage
  deriving DecidableEq

namespace SearchConversation

/-- The conversation is in the history of the account. -/
def isListed (c : SearchConversation) (owner : ℕ) : Bool :=
  c.userId = owner && c.deletedAt.isNone && c.activatedAt.isSome

/-- The title or a message has the pattern. -/
def isMatch (c : SearchConversation) (pattern : List Char) : Bool :=
  decide (c.searchTextVersion = some 1) && likePattern pattern c.searchTitle ||
    c.messages.any fun m => m.isHit pattern

/-- `(updated_at, id)`. -/
def key (c : SearchConversation) : Datetime ×ₗ ℕ := toLex (c.updatedAt, c.id)

/-- The message that a result leads to: the last one with the pattern. -/
def hit (c : SearchConversation) (pattern : List Char) : Option SearchMessage :=
  ((c.messages.filter fun m => m.isHit pattern).insertionSort
    fun a b => b.position ≤ a.position).head?

end SearchConversation

/-- `ConversationSearchItem`. -/
structure SearchItem where
  conversationId : Uuid
  title : Option (List Char)
  updatedAt : Datetime
  titleMatch : Option SearchRange
  snippet : Option SearchSnippet
  target : Option SearchTarget
  deriving DecidableEq

/-- `ConversationSearchResponse`. -/
structure SearchResponse where
  items : List SearchItem
  nextCursor : Option String
  deriving DecidableEq

/-- The item of a conversation in the answer to a query. -/
def searchItem (query : List Char) (c : SearchConversation) : SearchItem :=
  let found := (c.hit (searchPattern query)).bind (searchHit query)
  { conversationId := c.publicId
    title := c.title
    updatedAt := c.updatedAt
    titleMatch := (titleMatchRange (c.title.getD []) query).map fun range => ⟨range.1, range.2⟩
    snippet := found.map Prod.snd
    target := found.map Prod.fst }

/-- The item of a conversation in the answer to no query. -/
def recentItem (c : SearchConversation) : SearchItem :=
  ⟨c.publicId, c.title, c.updatedAt, none, none, none⟩

def searchQueryInvalid : SearchError :=
  ⟨422, "Search query or page size is invalid.", "search_query_invalid"⟩

def searchTimeout : SearchError := ⟨503, "Search timed out. Please retry.", "search_timeout"⟩

def searchFailed : SearchError := ⟨503, "Search unavailable. Please retry.", "search_failed"⟩

/-- The rows of the account that match the query. -/
def matchingRows (rows : List SearchConversation) (owner : ℕ) (query : List Char) :
    List SearchConversation :=
  rows.filter fun c => c.isListed owner && c.isMatch (searchPattern query)

/-- What a cursor says about the page: where it begins. -/
def searchBoundary (env : SearchEnv) (rows : List SearchConversation) (userId : ℕ)
    (query : List Char) (limit : ℤ) (cursor : Option String) :
    Except SearchError (Option (Datetime ×ₗ ℕ)) :=
  match cursor with
  | none => .ok none
  | some cursor =>
    -- an empty text is no cursor
    if cursor = "" then .ok none
    else do
      let boundary ← env.readCursor cursor userId query limit
      match rows.find? fun c => c.publicId = boundary.2 ∧ c.userId = userId with
      | none => .error searchCursorInvalid
      | some c => .ok (some (toLex (boundary.1, c.id)))

/-- The page behind a boundary. -/
def searchPage (env : SearchEnv) (rows : List SearchConversation) (userId : ℕ) (query : List Char)
    (limit : ℕ) (bound : Option (Datetime ×ₗ ℕ)) : SearchResponse :=
  let rows := (Keyset.rowsAfter SearchConversation.key bound
    (matchingRows rows userId query)).take (limit + 1)
  let items := (rows.take limit).map (searchItem query)
  let nextCursor :=
    if limit < rows.length then
      items.getLast?.map fun last =>
        env.cursor (env.cursorPayload userId query limit last.updatedAt last.conversationId)
    else none
  ⟨items, nextCursor⟩

/-- `search_conversations`; `sqlstate` is how the database fails at the query, if it does. -/
def searchConversations (env : SearchEnv) (rows : List SearchConversation)
    (sqlstate : Option String) (userId : ℕ) (query : List Char) (limit : ℤ)
    (cursor : Option String) : Except SearchError SearchResponse :=
  if 200 < query.length ∨ Char.ofNat 0 ∈ query ∨ ¬(1 ≤ limit ∧ limit ≤ 50) then
    .error searchQueryInvalid
  else
    let query := normalizeQuery query
    if query = [] then
      if cursor.any (· ≠ "") then .error searchCursorInvalid
      else
        .ok ⟨((Keyset.rowsAfter SearchConversation.key none
          (rows.filter fun c => c.isListed userId)).take 10).map recentItem, none⟩
    else do
      let bound ← searchBoundary env rows userId query limit cursor
      match sqlstate with
      | some state => .error (if state = "57014" then searchTimeout else searchFailed)
      | none => .ok (searchPage env rows userId query limit.toNat bound)

/-! ### Tables that change -/

/-- The rows of `conversations`, with their unique keys. -/
structure SearchTable where
  rows : List SearchConversation
  idNodup : (rows.map SearchConversation.id).Nodup
  publicIdNodup : (rows.map SearchConversation.publicId).Nodup

/-- The tables at the requests of a client. A row keeps its keys. -/
structure SearchHistory where
  table : ℕ → SearchTable
  stable : ∀ i j, ∀ c ∈ (table i).rows, ∀ d ∈ (table j).rows, c.publicId = d.publicId →
    c.id = d.id ∧ c.userId = d.userId

/-- What a client gets that follows the cursors from the request `i` on: the answers, and the error
that stops it, if there is one. A request that the database fails is repeated and does not count. -/
inductive SearchWalk (env : SearchEnv) (history : SearchHistory) (userId : ℕ) (query : List Char)
    (limit : ℤ) : ℕ → Option String → List SearchResponse → Option SearchError → Prop
  | refused {i : ℕ} {cursor : Option String} {error : SearchError}
    (hrefused : searchConversations env (history.table i).rows none userId query limit cursor =
      .error error) : SearchWalk env history userId query limit i cursor [] (some error)
  | last {i : ℕ} {cursor : Option String} {response : SearchResponse}
    (hresponse : searchConversations env (history.table i).rows none userId query limit cursor =
      .ok response) (hlast : response.nextCursor = none) :
    SearchWalk env history userId query limit i cursor [response] none
  | more {i : ℕ} {cursor : Option String} {response : SearchResponse} {next : String}
    {responses : List SearchResponse} {outcome : Option SearchError}
    (hresponse : searchConversations env (history.table i).rows none userId query limit cursor =
      .ok response) (hnext : response.nextCursor = some next)
    (hrest : SearchWalk env history userId query limit (i + 1) (some next) responses outcome) :
    SearchWalk env history userId query limit i cursor (response :: responses) outcome

/-- The request is one that the search answers: the query is not too long and not blank, and the
page has a size. -/
structure SearchRequest (query : List Char) (limit : ℕ) : Prop where
  short : query.length ≤ 200
  text : Char.ofNat 0 ∉ query
  size : 1 ≤ limit ∧ limit ≤ 50
  notBlank : normalizeQuery query ≠ []

/-- The cursor is the one behind a row of the account, or there is none. -/
structure IsCursorOf (env : SearchEnv) (history : SearchHistory) (userId : ℕ) (query : List Char)
    (limit : ℕ) (cursor : Option String) (row : Option SearchConversation) : Prop where
  cursor_eq : cursor = row.map fun c =>
    env.cursor (env.cursorPayload userId (normalizeQuery query) limit c.updatedAt c.publicId)
  owned : ∀ c ∈ row, c.userId = userId ∧ ∃ i, c ∈ (history.table i).rows

/-- The rows that are searched at a request. -/
def SearchHistory.matching (history : SearchHistory) (userId : ℕ) (query : List Char) (i : ℕ) :
    List SearchConversation :=
  matchingRows (history.table i).rows userId (normalizeQuery query)

section

variable {env : SearchEnv} {history : SearchHistory} {userId : ℕ} {query : List Char} {limit : ℕ}

theorem SearchTable.eq_of_publicId (table : SearchTable) {c d : SearchConversation}
    (hc : c ∈ table.rows) (hd : d ∈ table.rows) (h : c.publicId = d.publicId) : c = d :=
  List.inj_on_of_nodup_map table.publicIdNodup hc hd h

/-- The keys of the rows differ. -/
theorem SearchHistory.nodup_keys (history : SearchHistory) (userId : ℕ) (query : List Char)
    (i : ℕ) : ((history.matching userId query i).map SearchConversation.key).Nodup := by
  have hids : ((history.matching userId query i).map SearchConversation.id).Nodup :=
    (history.table i).idNodup.sublist (List.filter_sublist.map _)
  have hkeys : ((history.matching userId query i).map SearchConversation.id) =
      ((history.matching userId query i).map SearchConversation.key).map fun k => (ofLex k).2 := by
    rw [List.map_map]
    rfl
  rw [hkeys] at hids
  exact hids.of_map _

/-- The page in the terms of its keys. -/
theorem searchPage_eq (rows : List SearchConversation) (bound : Option (Datetime ×ₗ ℕ)) :
    searchPage env rows userId query limit bound =
      ⟨(Keyset.items SearchConversation.key limit bound (matchingRows rows userId query)).map
          (searchItem query),
        if limit < (Keyset.rowsAfter SearchConversation.key bound
            (matchingRows rows userId query)).length then
          (Keyset.items SearchConversation.key limit bound
            (matchingRows rows userId query)).getLast?.map fun last =>
              env.cursor (env.cursorPayload userId query limit last.updatedAt last.publicId)
        else none⟩ := by
  have htake : ∀ rows : List SearchConversation, (rows.take (limit + 1)).take limit =
      rows.take limit := by
    intro rows
    rw [List.take_take, Nat.min_eq_left (Nat.le_succ limit)]
  have hmore : ∀ rows : List SearchConversation, limit < (rows.take (limit + 1)).length ↔
      limit < rows.length := by
    intro rows
    rw [List.length_take]
    omega
  rw [searchPage]
  simp only [htake, hmore, Keyset.items, List.getLast?_map, Option.map_map]
  rfl

/-- The row that the next page begins behind. -/
def nextRow (rows : List SearchConversation) (limit : ℕ) (bound : Option (Datetime ×ₗ ℕ)) :
    Option SearchConversation :=
  if limit < (Keyset.rowsAfter SearchConversation.key bound rows).length then
    (Keyset.items SearchConversation.key limit bound rows).getLast?
  else none

theorem map_nextRow (rows : List SearchConversation) (bound : Option (Datetime ×ₗ ℕ)) :
    (nextRow rows limit bound).map SearchConversation.key =
      Keyset.next? SearchConversation.key limit bound rows := by
  rw [nextRow, Keyset.next?]
  split <;> rfl

/-- The cursor of an answer is that of its last row. -/
theorem isCursorOf_searchPage (i : ℕ) (bound : Option (Datetime ×ₗ ℕ)) :
    IsCursorOf env history userId query limit
      (searchPage env (history.table i).rows userId (normalizeQuery query) limit bound).nextCursor
      (nextRow (history.matching userId query i) limit bound) := by
  rw [searchPage_eq]
  constructor
  · rw [nextRow, SearchHistory.matching]
    split <;> rfl
  · intro c hc
    rw [nextRow] at hc
    split at hc
    · have hrow := (Keyset.mem_items (List.mem_of_getLast? hc)).1
      obtain ⟨hin, hmatch⟩ := List.mem_filter.mp hrow
      have hlisted := (Bool.and_eq_true_iff.mp (Bool.and_eq_true_iff.mp
        (Bool.and_eq_true_iff.mp hmatch).1).1).1
      exact ⟨of_decide_eq_true hlisted, i, hin⟩
    · cases hc

/-- The table has the row behind which a page begins, maybe changed. -/
def SearchTable.HasRow (table : SearchTable) (row : Option SearchConversation) : Prop :=
  ∀ c ∈ row, ∃ d ∈ table.rows, d.publicId = c.publicId

/-- The cursor of a row gives its boundary back, unless the row is gone. -/
theorem searchBoundary_eq (hsize : limit < 100) (i : ℕ) {cursor : Option String}
    {row : Option SearchConversation}
    (hcursor : IsCursorOf env history userId query limit cursor row) :
    ((history.table i).HasRow row →
      searchBoundary env (history.table i).rows userId (normalizeQuery query) limit cursor =
        .ok (row.map SearchConversation.key)) ∧
    (¬(history.table i).HasRow row →
      searchBoundary env (history.table i).rows userId (normalizeQuery query) limit cursor =
        .error searchCursorInvalid) := by
  obtain ⟨rfl, howned⟩ := hcursor
  cases row with
  | none => exact ⟨fun _ => rfl, fun hgone => absurd (fun c hc => nomatch hc) hgone⟩
  | some c =>
    obtain ⟨howner, j, hc⟩ := howned c rfl
    have hread := env.readCursor_cursor userId userId (normalizeQuery query) (normalizeQuery query)
      hsize limit c.updatedAt c.publicId
    rw [if_pos ⟨rfl, rfl, rfl⟩] at hread
    rw [Option.map_some, searchBoundary, if_neg (env.cursor_ne_empty _), hread]
    dsimp only [Bind.bind, Except.bind]
    cases hfound : (history.table i).rows.find? fun d =>
      d.publicId = c.publicId ∧ d.userId = userId with
    | some d =>
      have hd := List.mem_of_find?_eq_some hfound
      have hkeys : d.publicId = c.publicId ∧ d.userId = userId := by
        simpa using List.find?_some hfound
      have hid : d.id = c.id := (history.stable i j d hd c hc hkeys.1).1
      refine ⟨fun _ => congrArg (fun id => Except.ok (some (toLex (c.updatedAt, id)))) hid, ?_⟩
      refine fun hgone => absurd (fun e he => ⟨d, hd, ?_⟩) hgone
      rw [← Option.some.inj he]
      exact hkeys.1
    | none =>
      refine ⟨fun hrow => ?_, fun _ => rfl⟩
      obtain ⟨d, hd, hpublic⟩ := hrow c rfl
      have howner' := (history.stable i j d hd c hc hpublic).2.trans howner
      exact absurd (decide_eq_true ⟨hpublic, howner'⟩) (List.find?_eq_none.mp hfound d hd)

/-- **Step.** A request is answered with the page behind its row, unless the row is gone. -/
theorem searchConversations_eq (hrequest : SearchRequest query limit) (i : ℕ)
    {cursor : Option String} {row : Option SearchConversation}
    (hcursor : IsCursorOf env history userId query limit cursor row) :
    ((history.table i).HasRow row →
      searchConversations env (history.table i).rows none userId query limit cursor =
        .ok (searchPage env (history.table i).rows userId (normalizeQuery query) limit
          (row.map SearchConversation.key))) ∧
    (¬(history.table i).HasRow row →
      searchConversations env (history.table i).rows none userId query limit cursor =
        .error searchCursorInvalid) := by
  have hsize := hrequest.size
  have hchecks : ¬(200 < query.length ∨ Char.ofNat 0 ∈ query ∨
      ¬(1 ≤ (limit : ℤ) ∧ (limit : ℤ) ≤ 50)) := by
    have hshort := hrequest.short
    rintro (hlong | hnul | hlimit)
    · omega
    · exact hrequest.text hnul
    · omega
  have hboundary := searchBoundary_eq (show limit < 100 by omega) i hcursor
  rw [searchConversations, if_neg hchecks]
  dsimp only
  rw [if_neg hrequest.notBlank]
  constructor
  · intro hrow
    rw [hboundary.1 hrow]
    rfl
  · intro hgone
    rw [hboundary.2 hgone]
    rfl

/-- An answer is a page, and its cursor is that of its last row, if there is more. -/
theorem answered (hrequest : SearchRequest query limit) {i : ℕ} {cursor : Option String}
    {row : Option SearchConversation}
    (hcursor : IsCursorOf env history userId query limit cursor row) {response : SearchResponse}
    (hresponse : searchConversations env (history.table i).rows none userId query limit cursor =
      .ok response) :
    response.items = (Keyset.items SearchConversation.key limit (row.map SearchConversation.key)
        (history.matching userId query i)).map (searchItem (normalizeQuery query)) ∧
      ∃ next, IsCursorOf env history userId query limit response.nextCursor next ∧
        next.map SearchConversation.key = Keyset.next? SearchConversation.key limit
          (row.map SearchConversation.key) (history.matching userId query i) ∧
        ∀ c ∈ next, response.items.getLast? = some (searchItem (normalizeQuery query) c) := by
  have hstep := searchConversations_eq hrequest i hcursor
  by_cases hrow : (history.table i).HasRow row
  · obtain rfl := Except.ok.inj (hresponse.symm.trans (hstep.1 hrow))
    refine ⟨by rw [searchPage_eq]; rfl, _, isCursorOf_searchPage i _, map_nextRow _ _, ?_⟩
    intro c hc
    rw [searchPage_eq, List.getLast?_map]
    rw [nextRow] at hc
    split at hc
    · exact congrArg (Option.map (searchItem (normalizeQuery query))) hc
    · cases hc
  · exact nomatch hresponse.symm.trans (hstep.2 hrow)

/-! ### Walks -/

variable {i : ℕ} {cursor : Option String} {responses : List SearchResponse}
  {outcome : Option SearchError}

/-- The pages of a walk are those of a walk by keys. -/
theorem SearchWalk.exists_walk (hrequest : SearchRequest query limit)
    (hwalk : SearchWalk env history userId query limit i cursor responses outcome) :
    ∀ row, IsCursorOf env history userId query limit cursor row →
      ∃ pages, Keyset.Walk SearchConversation.key limit (history.matching userId query) i
          (row.map SearchConversation.key) pages outcome.isNone ∧
        responses.map SearchResponse.items =
          pages.map fun page => page.map (searchItem (normalizeQuery query)) := by
  induction hwalk with
  | @refused i cursor error hrefused =>
    exact fun row hcursor => ⟨[], .stopped i _, rfl⟩
  | @last i cursor response hresponse hlast =>
    intro row hcursor
    obtain ⟨hitems, next, hnext, hkey, -⟩ := answered hrequest hcursor hresponse
    have hnone : next = none := by
      rw [← Option.map_eq_none_iff, ← hnext.cursor_eq]
      exact hlast
    rw [hnone] at hkey
    exact ⟨_, .last hkey.symm, congrArg (fun items => [items]) hitems⟩
  | @more i cursor response text responses outcome hresponse htext hrest ih =>
    intro row hcursor
    obtain ⟨hitems, next, hnext, hkey, -⟩ := answered hrequest hcursor hresponse
    obtain ⟨pages, hpages, hrestItems⟩ := ih next (htext ▸ hnext)
    cases next with
    | none =>
      have hnone := hnext.cursor_eq
      rw [htext] at hnone
      cases hnone
    | some =>
      exact ⟨_, .more hkey.symm hpages, congrArg₂ List.cons hitems hrestItems⟩

/-- A walk that stops has lost the row behind which it was. -/
theorem SearchWalk.refused_spec (hrequest : SearchRequest query limit)
    (hwalk : SearchWalk env history userId query limit i cursor responses outcome)
    {error : SearchError} (houtcome : outcome = some error) :
    ∀ row, IsCursorOf env history userId query limit cursor row →
      error = searchCursorInvalid ∧
        ((responses = [] ∧ ∃ c ∈ row, ∀ d ∈ (history.table i).rows, d.publicId ≠ c.publicId) ∨
          ∃ response item, responses.getLast? = some response ∧
            response.items.getLast? = some item ∧
              ∀ d ∈ (history.table (i + responses.length)).rows,
                d.publicId ≠ item.conversationId) := by
  induction hwalk with
  | @refused i cursor error' hrefused =>
    intro row hcursor
    cases houtcome
    have hstep := searchConversations_eq hrequest i hcursor
    by_cases hrow : (history.table i).HasRow row
    · exact nomatch hrefused.symm.trans (hstep.1 hrow)
    · refine ⟨Except.error.inj (hrefused.symm.trans (hstep.2 hrow)), .inl ⟨rfl, ?_⟩⟩
      simp only [SearchTable.HasRow, not_forall, not_exists, not_and] at hrow
      obtain ⟨c, hc, hgone⟩ := hrow
      exact ⟨c, hc, hgone⟩
  | @last i cursor response hresponse hlast => cases houtcome
  | @more i cursor response text responses outcome hresponse htext hrest ih =>
    intro row hcursor
    obtain ⟨hitems, next, hnext, hkey, hlastItem⟩ := answered hrequest hcursor hresponse
    obtain ⟨herror, ⟨rfl, c, hc, hgone⟩ | ⟨last, item, hlast, hitem, hgone⟩⟩ :=
      ih houtcome next (htext ▸ hnext)
    · exact ⟨herror, .inr ⟨response, _, rfl, hlastItem c hc, hgone⟩⟩
    · refine ⟨herror, .inr ⟨last, item, ?_, hitem, ?_⟩⟩
      · rw [List.getLast?_cons, hlast]
        rfl
      · rw [List.length_cons, Nat.add_comm responses.length, ← Nat.add_assoc]
        exact hgone

/-- There is a walk, if there is one behind every row that follows. -/
theorem SearchWalk.exists_of_next (hrequest : SearchRequest query limit)
    {row : Option SearchConversation}
    (hcursor : IsCursorOf env history userId query limit cursor row)
    (hbehind : ∀ next text, IsCursorOf env history userId query limit (some text) (some next) →
      Keyset.Behind next.key (row.map SearchConversation.key) → ∃ responses outcome,
        SearchWalk env history userId query limit (i + 1) (some text) responses outcome) :
    ∃ responses outcome, SearchWalk env history userId query limit i cursor responses outcome := by
  cases hanswer : searchConversations env (history.table i).rows none userId query limit cursor with
  | error error => exact ⟨[], some error, .refused hanswer⟩
  | ok response =>
    obtain ⟨-, next, hnext, hkey, -⟩ := answered hrequest hcursor hanswer
    cases next with
    | none => exact ⟨[response], none, .last hanswer hnext.cursor_eq⟩
    | some d =>
      have htext := hnext.cursor_eq
      rw [Option.map_some] at htext
      obtain ⟨responses, outcome, hrest⟩ := hbehind d _ (htext ▸ hnext) (Keyset.next?_lt hkey.symm)
      exact ⟨response :: responses, outcome, .more hanswer htext hrest⟩

/-- **Termination.** Following the cursors ends. -/
theorem SearchWalk.exists_outcome (hrequest : SearchRequest query limit) (i : ℕ) :
    ∃ responses outcome, SearchWalk env history userId query limit i none responses outcome := by
  have hbehind : ∀ k : Datetime ×ₗ ℕ, ∀ i c cursor, SearchConversation.key c = k →
      IsCursorOf env history userId query limit cursor (some c) → ∃ responses outcome,
        SearchWalk env history userId query limit i cursor responses outcome := by
    intro k
    induction k using WellFoundedLT.induction with
    | ind k ih =>
      intro i c cursor hkey hcursor
      refine exists_of_next hrequest hcursor fun next text hnext hlt => ?_
      exact ih next.key (hkey ▸ hlt c.key rfl) (i + 1) next _ rfl hnext
  have hstart : IsCursorOf env history userId query limit none none :=
    ⟨rfl, fun c hc => nomatch hc⟩
  refine exists_of_next hrequest hstart fun next text hnext _ => ?_
  exact hbehind next.key (i + 1) next _ rfl hnext

/-- The cursors of a walk are those of the last items of their answers. -/
theorem SearchWalk.cursor_spec (hrequest : SearchRequest query limit)
    (hwalk : SearchWalk env history userId query limit i cursor responses outcome) :
    ∀ row, IsCursorOf env history userId query limit cursor row →
      ∀ response ∈ responses, ∀ text, response.nextCursor = some text →
        ∃ item, response.items.getLast? = some item ∧ text = env.cursor (env.cursorPayload userId
          (normalizeQuery query) limit item.updatedAt item.conversationId) := by
  have hself : ∀ (i : ℕ) (cursor : Option String) (response : SearchResponse),
      searchConversations env (history.table i).rows none userId query limit cursor =
        .ok response →
      ∀ row, IsCursorOf env history userId query limit cursor row →
        ∀ text, response.nextCursor = some text → ∃ item, response.items.getLast? = some item ∧
          text = env.cursor (env.cursorPayload userId (normalizeQuery query) limit item.updatedAt
            item.conversationId) := by
    intro i cursor response hresponse row hcursor text htext
    obtain ⟨-, next, hnext, -, hlast⟩ := answered hrequest hcursor hresponse
    have heq := hnext.cursor_eq
    rw [htext] at heq
    obtain ⟨c, hc, hcursorText⟩ := Option.map_eq_some_iff.mp heq.symm
    exact ⟨_, hlast c hc, hcursorText.symm⟩
  induction hwalk with
  | @refused i cursor error hrefused => exact fun _ _ _ hresponse => nomatch hresponse
  | @last i cursor response hresponse hlast =>
    intro row hcursor other hother
    obtain rfl := List.mem_singleton.mp hother
    exact hself i cursor other hresponse row hcursor
  | @more i cursor response next responses outcome hresponse hnext hrest ih =>
    intro row hcursor other hother
    obtain rfl | hlater := List.mem_cons.mp hother
    · exact hself i cursor other hresponse row hcursor
    · obtain ⟨-, nextRow, hnextRow, -, -⟩ := answered hrequest hcursor hresponse
      exact ih nextRow (hnext ▸ hnextRow) other hlater

/-- A row that is searched throughout has one item among those of its walk. -/
theorem countP_items {rows : List SearchConversation} {c : SearchConversation}
    (hkeys : rows.Pairwise fun a b => b.key < a.key) (hc : c ∈ rows)
    (hsame : ∀ d ∈ rows, d.publicId = c.publicId → d = c) :
    (rows.map (searchItem query)).countP (fun item => item.conversationId = c.publicId) = 1 := by
  have hnodup : rows.Nodup := hkeys.imp fun hlt heq => by
    rw [heq] at hlt
    exact lt_irrefl _ hlt
  have hcount : rows.countP (fun d => decide (d.publicId = c.publicId)) = rows.count c := by
    rw [List.count]
    refine List.countP_congr fun d hd => ?_
    rw [decide_eq_true_iff, beq_iff_eq]
    exact ⟨hsame d hd, fun heq => heq ▸ rfl⟩
  rw [List.countP_map]
  exact hcount.trans (List.count_eq_one_of_mem hnodup hc)

/-- **Paging.** Following the cursors from the first page ends, whatever happens to the rows
meanwhile. The items are rows that match when their page is read, in strictly decreasing order. A
walk that reaches the last page has the rows once that match throughout; one that does not has been
refused its cursor, and the row of its boundary is gone. A cursor is accepted with its own account,
query and size only, and gives back the boundary that it has been issued for. -/
theorem searchWalk_spec {accounts : Set ℕ} {queries : Set (List Char)}
    (haccounts : Set.InjOn env.accountDigest accounts)
    (hqueries : Set.InjOn env.queryDigest queries) (hrequest : SearchRequest query limit)
    (huser : userId ∈ accounts) (hquery : normalizeQuery query ∈ queries) :
    (∃ responses outcome, SearchWalk env history userId query limit 0 none responses outcome) ∧
    ∀ responses outcome, SearchWalk env history userId query limit 0 none responses outcome →
      (∃ rows : List SearchConversation,
        responses.flatMap SearchResponse.items = rows.map (searchItem (normalizeQuery query)) ∧
        rows.Pairwise (fun a b => b.key < a.key) ∧
        ∀ c ∈ rows, ∃ j < responses.length, c ∈ history.matching userId query j) ∧
      (outcome = none → ∀ c, (∀ j < responses.length, c ∈ history.matching userId query j) →
        (responses.flatMap SearchResponse.items).countP
          (fun item => item.conversationId = c.publicId) = 1) ∧
      (∀ error, outcome = some error → error = searchCursorInvalid ∧ ∃ response item,
        responses.getLast? = some response ∧ response.items.getLast? = some item ∧
          ∀ d ∈ (history.table responses.length).rows, d.publicId ≠ item.conversationId) ∧
      ∀ response ∈ responses, ∀ text, response.nextCursor = some text → ∃ item,
        response.items.getLast? = some item ∧
          ∀ userId' ∈ accounts, ∀ query' ∈ queries, ∀ limit' : ℤ,
            env.readCursor text userId' query' limit' =
              if userId = userId' ∧ normalizeQuery query = query' ∧ limit = limit' then
                .ok (item.updatedAt, item.conversationId)
              else .error searchCursorInvalid := by
  have hstart : IsCursorOf env history userId query limit none none :=
    ⟨rfl, fun c hc => nomatch hc⟩
  refine ⟨SearchWalk.exists_outcome hrequest 0, fun responses outcome hwalk => ?_⟩
  -- the responses are pages of one walk through the keys, newest first
  obtain ⟨pages, hpages, hitems⟩ := hwalk.exists_walk hrequest none hstart
  have hlength : responses.length = pages.length := by
    have hmaps := congrArg List.length hitems
    rwa [List.length_map, List.length_map] at hmaps
  have hflat : responses.flatMap SearchResponse.items =
      pages.flatten.map (searchItem (normalizeQuery query)) := by
    rw [List.flatMap_def, hitems, List.map_flatten]
  have hkeys := hpages.pairwise (history.nodup_keys userId query)
  have hthere : ∀ c ∈ pages.flatten, ∃ j < responses.length,
      c ∈ history.matching userId query j := by
    intro c hc
    obtain ⟨j, -, hj, hmem⟩ := hpages.exists_mem hc
    exact ⟨j, by omega, hmem⟩
  refine ⟨⟨pages.flatten, hflat, hkeys, hthere⟩, ?_, ?_, ?_⟩
  · intro houtcome c hc
    -- a match at every page's time is passed by no cursor
    have hfound : c ∈ pages.flatten := by
      refine hpages.complete (by have := hrequest.size; omega) (history.nodup_keys userId query)
        (by rw [houtcome]; rfl) (fun j _ hj => hc j (by omega)) fun b hb => nomatch hb
    rw [hflat]
    refine countP_items hkeys hfound fun d hd hpublic => ?_
    obtain ⟨j, hj, hmem⟩ := hthere d hd
    exact (history.table j).eq_of_publicId (List.mem_of_mem_filter hmem)
      (List.mem_of_mem_filter (hc j hj)) hpublic
  · intro error houtcome
    obtain ⟨herror, ⟨-, c, hc, -⟩ | ⟨response, item, hlast, hitem, hgone⟩⟩ :=
      hwalk.refused_spec hrequest houtcome none hstart
    · cases hc
    · rw [Nat.zero_add] at hgone
      exact ⟨herror, response, item, hlast, hitem, hgone⟩
  · intro response hresponse text htext
    obtain ⟨item, hlast, rfl⟩ :=
      hwalk.cursor_spec hrequest none hstart response hresponse text htext
    refine ⟨item, hlast, fun userId' huser' query' hquery' limit' => ?_⟩
    rw [env.readCursor_cursor userId userId' _ query' (by have := hrequest.size; omega) limit']
    refine if_congr (and_congr ?_ (and_congr_left' ?_)) rfl rfl
    · refine ⟨fun heq => haccounts huser huser' ?_, fun heq => heq ▸ rfl⟩
      exact Vector.toList_inj.mp (Bytes.hex_injective heq)
    · refine ⟨fun heq => hqueries hquery hquery' ?_, fun heq => heq ▸ rfl⟩
      exact Vector.toList_inj.mp (Bytes.hex_injective heq)

end

/-! ### A walk that is refused -/

/-- The soft deletion of a conversation. -/
def deleteSearchConversation (publicId : Uuid) (now due : Datetime)
    (rows : List SearchConversation) : List SearchConversation :=
  rows.map fun c =>
    if c.publicId = publicId then
      { c with deletedAt := some now, deletionDueAt := some due, updatedAt := now }
    else c

/-- `purge_deleted_conversations`, with a batch that takes every row that is due. -/
def purgeSearchConversations (moment : Datetime) (rows : List SearchConversation) :
    List SearchConversation :=
  rows.filter fun c => !(c.deletedAt.isSome && c.deletionDueAt.any fun due => due ≤ moment)

/-- The digests, with the key `secret`, of the texts that belong to the accounts 1 and 2, the
queries `a` and `b`, and the cursor behind the newer of two conversations. -/
def digestEnv : SearchEnv where
  hmacSha256 _ message :=
    if message = Bytes.utf8 "search-account:1" then
      #v[0x13, 0x6e, 0x20, 0xf3, 0xe2, 0xbe, 0xeb, 0x46, 0xf1, 0xc9, 0x9b, 0x72, 0x26, 0x09,
      0x2e, 0x6e, 0xd0, 0x7c, 0xb1, 0x26, 0xe3, 0xe8, 0x00, 0xb6, 0x63, 0xa0, 0xfe, 0xa3,
      0xb6, 0xac, 0xa4, 0x7b]
    else if message = Bytes.utf8 "search-account:2" then
      #v[0x03, 0xb2, 0x07, 0x72, 0xe0, 0xcd, 0x85, 0xa3, 0x80, 0x46, 0x0b, 0x6b, 0xf3, 0xbd,
      0xcf, 0x58, 0xfd, 0xf8, 0xc5, 0x38, 0x91, 0x04, 0x94, 0x53, 0x3a, 0xe7, 0x03, 0x2b,
      0x0b, 0x0e, 0xcd, 0x4c]
    else
      #v[0x4f, 0x42, 0x86, 0x68, 0x98, 0x4f, 0x48, 0xde, 0x53, 0xb0, 0xc1, 0xd7, 0x8a, 0x96,
      0x31, 0xcd, 0xb3, 0xcc, 0x12, 0x5f, 0x6b, 0xd0, 0x78, 0xc7, 0xc6, 0xfc, 0x92, 0x7e,
      0x74, 0xf9, 0x66, 0x49]
  sha256 message :=
    if message = Bytes.utf8 "a" then
      #v[0xca, 0x97, 0x81, 0x12, 0xca, 0x1b, 0xbd, 0xca, 0xfa, 0xc2, 0x31, 0xb3, 0x9a, 0x23,
      0xdc, 0x4d, 0xa7, 0x86, 0xef, 0xf8, 0x14, 0x7c, 0x4e, 0x72, 0xb9, 0x80, 0x77, 0x85,
      0xaf, 0xee, 0x48, 0xbb]
    else
      #v[0x3e, 0x23, 0xe8, 0x16, 0x00, 0x39, 0x59, 0x4a, 0x33, 0x89, 0x4f, 0x65, 0x64, 0xe1,
      0xb1, 0x34, 0x8b, 0xbd, 0x7a, 0x00, 0x88, 0xd4, 0x2c, 0x4a, 0xcb, 0x73, 0xee, 0xae,
      0xd5, 0x9c, 0x00, 0x9d]
  otherJson _ := none
  otherMoment _ := none
  secret := "secret"

/-- Midnight, in January. -/
def january (day : Fin 31) : Datetime where
  year := 2026
  month := 1
  day := day + 1
  hour := 0
  minute := 0
  second := 0
  microsecond := 0
  hyear := by decide
  hmonth := by decide
  hday := ⟨Nat.succ_pos _, day.isLt⟩
  htime := by decide

/-- A conversation with the title `a`. -/
def titledConversation (id : Fin 31) : SearchConversation where
  id := id
  publicId := ⟨Fin.ofNat _ id⟩
  userId := 1
  title := some ['a']
  searchTitle := some ['a']
  searchTextVersion := some 1
  updatedAt := january id
  deletedAt := none
  deletionDueAt := none
  activatedAt := some (january id)
  messages := []

/-- Two tables, the second one from the request 1 on. -/
def SearchHistory.ofTwo (first later : SearchTable)
    (hkeys : ∀ c ∈ first.rows ++ later.rows, ∀ d ∈ first.rows ++ later.rows,
      c.publicId = d.publicId → c.id = d.id ∧ c.userId = d.userId) : SearchHistory where
  table i := if i = 0 then first else later
  stable := by
    have hrows : ∀ i, ∀ c ∈ (if i = 0 then first else later).rows,
        c ∈ first.rows ++ later.rows := by
      intro i c hc
      split at hc
      · exact List.mem_append_left _ hc
      · exact List.mem_append_right _ hc
    exact fun i j c hc d hd => hkeys c (hrows i c hc) d (hrows j d hd)

/-- Two conversations. -/
def titledTable : SearchTable where
  rows := [titledConversation 1, titledConversation 2]
  idNodup := by decide
  publicIdNodup := by decide

/-- The newer one is deleted. -/
def deletedTable : SearchTable where
  rows := deleteSearchConversation ⟨2⟩ (january 3) (january 29) titledTable.rows
  idNodup := by decide
  publicIdNodup := by decide

/-- And purged, when the time has come. -/
def purgedTable : SearchTable where
  rows := purgeSearchConversations (january 30) deletedTable.rows
  idNodup := by decide
  publicIdNodup := by decide

def deletedHistory : SearchHistory := .ofTwo titledTable deletedTable (by decide)

def purgedHistory : SearchHistory := .ofTwo titledTable purgedTable (by decide)

theorem searchRequest_a : SearchRequest ['a'] 1 where
  short := by decide
  text := by decide
  size := by decide
  notBlank := by decide

/-- The first page ends with the newer conversation. Once that is purged, its cursor is refused, and
the older conversation is not found, which has matched all the time. -/
theorem purged_walk_stops :
    ∃ responses, SearchWalk digestEnv purgedHistory 1 ['a'] 1 0 none responses
        (some searchCursorInvalid) ∧
      (∀ j, titledConversation 1 ∈ purgedHistory.matching 1 ['a'] j) ∧
      (responses.flatMap SearchResponse.items).countP
        (fun item => item.conversationId = (titledConversation 1).publicId) = 0 := by
  have hstart : IsCursorOf digestEnv purgedHistory 1 ['a'] 1 none none :=
    ⟨rfl, fun c hc => nomatch hc⟩
  have hanswer := (searchConversations_eq searchRequest_a 0 hstart).1 fun c hc => nomatch hc
  have hnext : nextRow (purgedHistory.matching 1 ['a'] 0) 1 none = some (titledConversation 2) := by
    decide
  have hcursor : IsCursorOf digestEnv purgedHistory 1 ['a'] 1 _ _ := isCursorOf_searchPage 0 none
  rw [hnext] at hcursor
  have hgone : ¬(purgedHistory.table 1).HasRow (some (titledConversation 2)) := by
    intro hrow
    obtain ⟨d, hd, hpublic⟩ := hrow _ rfl
    have hrows : ∀ d ∈ purgedTable.rows, d.publicId ≠ (titledConversation 2).publicId := by decide
    exact hrows d hd hpublic
  have htext := hcursor.cursor_eq
  rw [Option.map_some] at htext
  have hrefused := (searchConversations_eq searchRequest_a 1 (htext ▸ hcursor)).2 hgone
  refine ⟨_, .more hanswer htext (.refused hrefused), ?_, ?_⟩
  · intro j
    have hrows : titledConversation 1 ∈ matchingRows titledTable.rows 1 (normalizeQuery ['a']) ∧
        titledConversation 1 ∈ matchingRows purgedTable.rows 1 (normalizeQuery ['a']) := by decide
    cases j with
    | zero => exact hrows.1
    | succ => exact hrows.2
  · rw [searchPage_eq]
    decide

/-- Where it is only deleted, the walk reaches the last page, and the older one is found. -/
theorem searchWalk_spec_deleted :
    ∃ responses, SearchWalk digestEnv deletedHistory 1 ['a'] 1 0 none responses none ∧
      (responses.flatMap SearchResponse.items).countP
        (fun item => item.conversationId = (titledConversation 1).publicId) = 1 := by
  have hpair : ∀ {α β : Type} (f : α → β) (x y : α), f x ≠ f y → Set.InjOn f {x, y} := by
    rintro α β f x y hne a (rfl | rfl) b (rfl | rfl) heq
    · rfl
    · exact absurd heq hne
    · exact absurd heq.symm hne
    · rfl
  have haccounts : Set.InjOn digestEnv.accountDigest {1, 2} := hpair _ _ _ (by decide)
  have hqueries : Set.InjOn digestEnv.queryDigest {['a'], ['b']} := hpair _ _ _ (by decide)
  obtain ⟨⟨responses, outcome, hwalk⟩, hspec⟩ := searchWalk_spec
    haccounts hqueries searchRequest_a (Or.inl rfl) (Or.inl (by decide))
  obtain ⟨⟨rows, hitems, -, hrows⟩, hcomplete, hrefused, -⟩ := hspec responses outcome hwalk
  have hthere : ∀ i j, ∀ c ∈ (deletedHistory.table i).rows,
      ∃ d ∈ (deletedHistory.table j).rows, d.publicId = c.publicId := by
    have hboth : ∀ c ∈ titledTable.rows ++ deletedTable.rows,
        (∃ d ∈ titledTable.rows, d.publicId = c.publicId) ∧
          ∃ d ∈ deletedTable.rows, d.publicId = c.publicId := by decide
    intro i j c hc
    have hin : c ∈ titledTable.rows ++ deletedTable.rows := by
      cases i with
      | zero => exact List.mem_append_left _ hc
      | succ => exact List.mem_append_right _ hc
    cases j with
    | zero => exact (hboth c hin).1
    | succ => exact (hboth c hin).2
  cases outcome with
  | none =>
    refine ⟨responses, hwalk, hcomplete rfl (titledConversation 1) fun j _ => ?_⟩
    have hmatch : titledConversation 1 ∈ matchingRows titledTable.rows 1 (normalizeQuery ['a']) ∧
        titledConversation 1 ∈ matchingRows deletedTable.rows 1 (normalizeQuery ['a']) := by decide
    cases j with
    | zero => exact hmatch.1
    | succ => exact hmatch.2
  | some error =>
    -- no row of a page is ever gone
    obtain ⟨-, response, item, hlast, hitem, hgone⟩ := hrefused error rfl
    have hin : item ∈ responses.flatMap SearchResponse.items := List.mem_flatMap.mpr
      ⟨response, List.mem_of_getLast? hlast, List.mem_of_getLast? hitem⟩
    rw [hitems] at hin
    obtain ⟨c, hc, rfl⟩ := List.mem_map.mp hin
    obtain ⟨j, -, hmatch⟩ := hrows c hc
    obtain ⟨d, hd, hpublic⟩ := hthere j responses.length c (List.mem_of_mem_filter hmatch)
    exact absurd hpublic (hgone d hd)

end IChat.Conversations
