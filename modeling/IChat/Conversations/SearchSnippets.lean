import IChat.Conversations.SearchText
import IChat.General.Lists
import Mathlib.Data.Int.Notation

/-!
# Snippets of the history search

The hit of a conversation in a search: the columns that the database computes from the text that
matched, counting characters from one, and the target and the snippet that the response makes of
them, counting UTF-16 units from zero.

`snippet_spec`: the match, the snippet and the target of every message that matches are parts of one
and the same cut of its text.
-/

namespace IChat.Conversations

/-! ### The functions of the database -/

/-- `search_utf16_length`. -/
def searchUtf16Length (value : List Char) : ℕ :=
  value.length + value.countP fun c => decide (0x10000 ≤ c.toNat)

/-- `strpos`: the place of the first occurrence, counted from one, and zero if there is none. -/
def strpos (s sub : List Char) : ℕ :=
  match TextSearch.find sub s with
  | some index => index + 1
  | none => 0

/-- `left`; a negative count leaves out that many characters at the end. -/
def left (s : List Char) (count : ℤ) : List Char :=
  if 0 ≤ count then s.take count.toNat else s.take (s.length - count.natAbs)

/-- `substring(s FROM start FOR count)`; a negative count is an error. -/
def substring (s : List Char) (start count : ℤ) : Option (List Char) :=
  if count < 0 then none else some ((s.take (start + count - 1).toNat).drop (start - 1).toNat)

/-- `str.replace`, of one character. -/
def replaceChar (old : Char) (new s : List Char) : List Char :=
  s.flatMap fun c => if c = old then new else [c]

/-- The pattern that a query is searched by. -/
def searchPattern (query : List Char) : List Char :=
  let escape := Char.ofNat 92
  '%' :: replaceChar '_' [escape, '_'] (replaceChar '%' [escape, '%']
    (replaceChar escape [escape, escape] query)) ++ ['%']

/-! ### The hit -/

/-- The columns of a message that the search reads. -/
structure SearchMessage where
  publicId : String
  position : ℤ
  archived : Bool
  searchTextVersion : Option ℕ
  searchText : Option (List Char)
  searchQuoteText : Option (List Char)
  searchTextHash : Option String
  searchQuoteHash : Option String
  deriving DecidableEq, Repr

/-- `search_normalize(value) COLLATE "C" LIKE :pattern ESCAPE '\'` is true. -/
def likePattern (pattern : List Char) (value : Option (List Char)) : Bool :=
  match value with
  | some value => TextSearch.like (Char.ofNat 92) pattern (searchNormalize value) = some true
  | none => false

/-- The rows that the hit is chosen from. -/
def SearchMessage.isHit (m : SearchMessage) (pattern : List Char) : Bool :=
  !m.archived && decide (m.searchTextVersion = some 1) &&
    (likePattern pattern m.searchText || likePattern pattern m.searchQuoteText)

inductive SearchField
  | body
  | replyQuote
  deriving DecidableEq, Repr

def SearchMessage.field (m : SearchMessage) (pattern : List Char) : SearchField :=
  if likePattern pattern m.searchText then .body else .replyQuote

def SearchMessage.body (m : SearchMessage) (pattern : List Char) : Option (List Char) :=
  if likePattern pattern m.searchText then m.searchText else m.searchQuoteText

def SearchMessage.hash (m : SearchMessage) (pattern : List Char) : Option String :=
  if likePattern pattern m.searchText then m.searchTextHash else m.searchQuoteHash

/-- The columns that the database computes from the text of a hit. -/
structure SnippetColumns where
  matchStart : ℕ
  matchLength : ℕ
  snippet : List Char
  snippetStart : ℕ
  truncatedBefore : Bool
  truncatedAfter : Bool
  deriving DecidableEq, Repr

def snippetColumns (query body : List Char) : Option SnippetColumns := do
  let pos : ℤ := strpos (searchNormalize body) query
  let queryLength : ℤ := query.length
  let snippet ← substring body (max 1 (pos - 40)) (queryLength + 40 + min 40 (pos - 1))
  let before ← substring body (max 1 (pos - 40)) (pos - max 1 (pos - 40))
  some
    { matchStart := searchUtf16Length (left body (pos - 1))
      matchLength := searchUtf16Length query
      snippet
      snippetStart := searchUtf16Length before
      truncatedBefore := decide (41 < pos)
      truncatedAfter := decide (pos + queryLength + 39 < body.length) }

/-- The half-open range `[start, end)`. -/
structure SearchRange where
  start : ℕ
  stop : ℕ
  deriving DecidableEq, Repr

structure SearchTarget extends SearchRange where
  messageId : String
  field : SearchField
  projectionHash : Option String
  deriving DecidableEq, Repr

structure SearchSnippet where
  text : List Char
  range : SearchRange
  truncatedBefore : Bool
  truncatedAfter : Bool
  deriving DecidableEq, Repr

/-- `item.target` and `item.snippet` of a row with a hit. -/
def searchHit (query : List Char) (m : SearchMessage) : Option (SearchTarget × SearchSnippet) := do
  let body ← m.body (searchPattern query)
  let row ← snippetColumns query body
  some
    ({ messageId := m.publicId
       field := m.field (searchPattern query)
       projectionHash := m.hash (searchPattern query)
       start := row.matchStart
       stop := row.matchStart + row.matchLength },
     { text := row.snippet
       range := ⟨row.snippetStart, row.snippetStart + Utf16.length query⟩
       truncatedBefore := row.truncatedBefore
       truncatedAfter := row.truncatedAfter })

/-! ### Lengths and patterns -/

theorem searchUtf16Length_eq (value : List Char) : searchUtf16Length value = Utf16.length value :=
  (Utf16.length_eq_add_countP value).symm

/-- Lower case keeps the offsets. -/
theorem length_map_asciiLower (s : List Char) :
    Utf16.length (s.map asciiLower) = Utf16.length s := by
  have hone : ∀ c, Utf16.length [asciiLower c] = Utf16.length [c] := by
    intro c
    by_cases hc : 'A' ≤ c ∧ c ≤ 'Z'
    · exact forall_upper (P := fun c => Utf16.length [asciiLower c] = Utf16.length [c])
        (by decide) hc
    · rw [asciiLower, if_neg hc]
  induction s with
  | nil => rfl
  | cons c s ih =>
    rw [List.map_cons, ← List.singleton_append, Utf16.length_append, hone, ih,
      ← Utf16.length_append, List.singleton_append]

/-- The three replacements escape every character that means something in a pattern. -/
theorem searchPattern_eq (query : List Char) :
    searchPattern query = '%' :: TextSearch.escaped (Char.ofNat 92) query ++ ['%'] := by
  have hone : ∀ c : Char,
      replaceChar '_' [Char.ofNat 92, '_'] (replaceChar '%' [Char.ofNat 92, '%']
        (if c = Char.ofNat 92 then [Char.ofNat 92, Char.ofNat 92] else [c])) =
      if c = Char.ofNat 92 ∨ c = '%' ∨ c = '_' then [Char.ofNat 92, c] else [c] := by
    intro c
    by_cases hescape : c = Char.ofNat 92
    · subst hescape
      decide
    · by_cases hpercent : c = '%'
      · subst hpercent
        decide
      · by_cases hone : c = '_'
        · subst hone
          decide
        · simp [replaceChar, hescape, hpercent, hone]
  simp only [searchPattern, replaceChar, TextSearch.escaped, List.flatMap_assoc] at hone ⊢
  simp only [hone]

/-- A text matches the pattern of a query when its lower case contains the query. -/
theorem likePattern_iff (query : List Char) (value : Option (List Char)) :
    likePattern (searchPattern query) value = true ↔
      ∃ text ∈ value, query <:+: searchNormalize text := by
  cases value with
  | none => simp [likePattern]
  | some text =>
    have hlike := TextSearch.like_contains (show Char.ofNat 92 ≠ '%' by decide) query
      (searchNormalize text)
    rw [likePattern, searchPattern_eq, hlike]
    simp

/-- The text of a hit is the one that matches. -/
theorem SearchMessage.exists_body_of_isHit {m : SearchMessage} {query : List Char}
    (h : m.isHit (searchPattern query) = true) :
    ∃ body, m.body (searchPattern query) = some body ∧ query <:+: searchNormalize body := by
  rw [isHit, Bool.and_eq_true, Bool.or_eq_true] at h
  rw [SearchMessage.body]
  by_cases hbody : likePattern (searchPattern query) m.searchText = true
  · obtain ⟨text, htext, hinfix⟩ := (likePattern_iff query m.searchText).mp hbody
    rw [if_pos hbody]
    exact ⟨text, htext, hinfix⟩
  · obtain ⟨text, htext, hinfix⟩ :=
      (likePattern_iff query m.searchQuoteText).mp (h.2.resolve_left hbody)
    rw [if_neg hbody]
    exact ⟨text, htext, hinfix⟩

/-! ### The cut of the text -/

/-- The place of the query and the forty characters on both sides of it. -/
theorem snippetColumns_eq {query body : List Char} {index : ℕ}
    (h : TextSearch.find query (searchNormalize body) = some index) :
    snippetColumns query body = some
      { matchStart := Utf16.length (body.take index)
        matchLength := Utf16.length query
        snippet := (body.take (index + query.length + 40)).drop (index - 40)
        snippetStart := Utf16.length ((body.take index).drop (index - 40))
        truncatedBefore := decide (40 < index)
        truncatedAfter := decide (index + query.length + 40 < body.length) } := by
  have hpos : strpos (searchNormalize body) query = index + 1 := by rw [strpos, h]
  have hsnippet : substring body (max 1 ((index + 1 : ℕ) - 40 : ℤ))
      (query.length + 40 + min 40 ((index + 1 : ℕ) - 1 : ℤ)) =
        some ((body.take (index + query.length + 40)).drop (index - 40)) := by
    have htake : (max 1 ((index + 1 : ℕ) - 40 : ℤ) +
        (query.length + 40 + min 40 ((index + 1 : ℕ) - 1 : ℤ)) - 1).toNat =
          index + query.length + 40 := by omega
    have hdrop : (max 1 ((index + 1 : ℕ) - 40 : ℤ) - 1).toNat = index - 40 := by omega
    rw [substring, if_neg (by omega), htake, hdrop]
  have hbefore : substring body (max 1 ((index + 1 : ℕ) - 40 : ℤ))
      ((index + 1 : ℕ) - max 1 ((index + 1 : ℕ) - 40 : ℤ)) =
        some ((body.take index).drop (index - 40)) := by
    have htake : (max 1 ((index + 1 : ℕ) - 40 : ℤ) +
        ((index + 1 : ℕ) - max 1 ((index + 1 : ℕ) - 40 : ℤ)) - 1).toNat = index := by omega
    have hdrop : (max 1 ((index + 1 : ℕ) - 40 : ℤ) - 1).toNat = index - 40 := by omega
    rw [substring, if_neg (by omega), htake, hdrop]
  have hleft : left body ((index + 1 : ℕ) - 1 : ℤ) = body.take index := by
    have hcount : ((index + 1 : ℕ) - 1 : ℤ).toNat = index := by omega
    rw [left, if_pos (by omega), hcount]
  have hfar : decide ((41 : ℤ) < (index + 1 : ℕ)) = decide (40 < index) := by
    rw [decide_eq_decide]
    omega
  have hnear : decide (((index + 1 : ℕ) : ℤ) + query.length + 39 < body.length) =
      decide (index + query.length + 40 < body.length) := by
    rw [decide_eq_decide]
    omega
  simp only [snippetColumns, hpos, hsnippet, hbefore, hleft, hfar, hnear, searchUtf16Length_eq,
    Option.bind_eq_bind, Option.bind_some]

/-- The target and the snippet, in offsets of the text. -/
theorem searchHit_eq {query body : List Char} {index : ℕ} {m : SearchMessage}
    (hbody : m.body (searchPattern query) = some body)
    (h : TextSearch.find query (searchNormalize body) = some index) :
    searchHit query m = some
      ({ messageId := m.publicId
         field := m.field (searchPattern query)
         projectionHash := m.hash (searchPattern query)
         start := Utf16.length (body.take index)
         stop := Utf16.length (body.take index) + Utf16.length query },
       { text := (body.take (index + query.length + 40)).drop (index - 40)
         range :=
          ⟨Utf16.length ((body.take index).drop (index - 40)),
            Utf16.length ((body.take index).drop (index - 40)) + Utf16.length query⟩
         truncatedBefore := decide (40 < index)
         truncatedAfter := decide (index + query.length + 40 < body.length) }) := by
  simp only [searchHit, hbody, snippetColumns_eq h, Option.bind_eq_bind, Option.bind_some]

/-- What stands at the place of the query is normalized to it. -/
theorem map_asciiLower_match {query body : List Char} {index : ℕ}
    (h : TextSearch.find query (searchNormalize body) = some index) :
    ((body.take (index + query.length)).drop index).map asciiLower = query := by
  obtain ⟨-, hhere, -⟩ := TextSearch.find_eq_some_iff.mp h
  have hlower : (searchNormalize body).drop index = (body.drop index).map asciiLower :=
    (List.map_drop ..).symm
  rw [List.drop_take, Nat.add_sub_cancel_left, List.map_take, ← hlower]
  exact (List.prefix_iff_eq_take.mp hhere).symm

/-- The hit of every message that a search finds. Its text is cut into five parts: the match, which
is normalized to the query and stands at the position that the database finds, at most forty
characters on both sides of it, and what is left out. The snippet is made of the middle parts, its
range and the target's are the range of the match in the snippet and in the text, and the flags tell
whether anything is left out. -/
theorem snippet_spec (raw : List Char) (m : SearchMessage)
    (hhit : m.isHit (searchPattern (normalizeQuery raw)) = true) :
    ∃ target snippet body, searchHit (normalizeQuery raw) m = some (target, snippet) ∧
      m.body (searchPattern (normalizeQuery raw)) = some body ∧
      ∃ farBefore before matched after farAfter,
        body = farBefore ++ before ++ matched ++ after ++ farAfter ∧
        strpos (searchNormalize body) (normalizeQuery raw) = (farBefore ++ before).length + 1 ∧
        normalizeQuery matched = normalizeQuery raw ∧
        snippet.text = before ++ matched ++ after ∧ before.length ≤ 40 ∧ after.length ≤ 40 ∧
        Utf16.slice snippet.text snippet.range.start snippet.range.stop = Utf16.encode matched ∧
        target.start = Utf16.length (farBefore ++ before) ∧
        target.stop = Utf16.length (farBefore ++ before ++ matched) ∧
        Utf16.slice body target.start target.stop = Utf16.encode matched ∧
        (snippet.truncatedBefore = true ↔ farBefore ≠ []) ∧
        (snippet.truncatedAfter = true ↔ farAfter ≠ []) := by
  obtain ⟨body, hbody, hinfix⟩ := m.exists_body_of_isHit hhit
  obtain ⟨index, hfind⟩ := Option.isSome_iff_exists.mp (TextSearch.find_isSome_iff.mpr hinfix)
  have hlower := map_asciiLower_match hfind
  have hcut := fun {a b c : ℕ} (hab : a ≤ b) (hbc : b ≤ c) =>
    List.drop_take_append_drop_take hab hbc body
  have hindex : index ≤ body.length := by
    have hle := (TextSearch.find_eq_some_iff.mp hfind).1
    rwa [searchNormalize, List.length_map] at hle
  -- the ends of the parts
  have hfront : body.take (index - 40) ++ (body.take index).drop (index - 40) =
      body.take index := hcut (Nat.zero_le _) (Nat.sub_le _ _)
  have hmatch : body.take index ++
      (body.take (index + (normalizeQuery raw).length)).drop index =
        body.take (index + (normalizeQuery raw).length) :=
          hcut (Nat.zero_le _) (Nat.le_add_right _ _)
  have hback : body.take (index + (normalizeQuery raw).length) ++
      (body.take (index + (normalizeQuery raw).length + 40)).drop
        (index + (normalizeQuery raw).length) =
          body.take (index + (normalizeQuery raw).length + 40) :=
    hcut (Nat.zero_le _) (Nat.le_add_right _ _)
  have hsnippet : (body.take index).drop (index - 40) ++
      (body.take (index + (normalizeQuery raw).length)).drop index ++
      (body.take (index + (normalizeQuery raw).length + 40)).drop
        (index + (normalizeQuery raw).length) =
          (body.take (index + (normalizeQuery raw).length + 40)).drop (index - 40) := by
    rw [hcut (Nat.sub_le _ _) (Nat.le_add_right _ _), hcut (by omega) (Nat.le_add_right _ _)]
  have hrange : Utf16.length (normalizeQuery raw) =
      Utf16.length ((body.take (index + (normalizeQuery raw).length)).drop index) :=
    (congrArg Utf16.length hlower).symm.trans (length_map_asciiLower _)
  have hfull : body = body.take (index + (normalizeQuery raw).length + 40) ++
      body.drop (index + (normalizeQuery raw).length + 40) := (List.take_append_drop _ _).symm
  refine ⟨_, _, body, searchHit_eq hbody hfind, hbody, body.take (index - 40),
    (body.take index).drop (index - 40),
    (body.take (index + (normalizeQuery raw).length)).drop index,
    (body.take (index + (normalizeQuery raw).length + 40)).drop
      (index + (normalizeQuery raw).length),
    body.drop (index + (normalizeQuery raw).length + 40), ?_, ?_, ?_, hsnippet.symm, ?_, ?_, ?_, ?_,
    ?_, ?_, ?_, ?_⟩
  · rw [hfront, hmatch, hback]
    exact hfull
  · rw [hfront, strpos, hfind, List.length_take, Nat.min_eq_left hindex]
  · rw [← normalizeQuery_map_asciiLower, hlower, normalizeQuery_normalizeQuery]
  · rw [List.length_drop, List.length_take]
    omega
  · rw [List.length_drop, List.length_take]
    omega
  · rw [← hsnippet, hrange, ← Utf16.length_append]
    exact Utf16.slice_append _ _ _
  · rw [hfront]
  · rw [hfront, hrange, ← Utf16.length_append]
  · have hparts : body = body.take index ++
        (body.take (index + (normalizeQuery raw).length)).drop index ++
        body.drop (index + (normalizeQuery raw).length) := by
      rw [hmatch, List.take_append_drop]
    rw [hrange, ← Utf16.length_append]
    exact (congrArg (fun s => Utf16.slice s _ _) hparts).trans (Utf16.slice_append _ _ _)
  · rw [decide_eq_true_iff, ne_eq, List.take_eq_nil_iff, not_or]
    constructor
    · intro hlt
      refine ⟨by omega, ?_⟩
      rintro rfl
      rw [List.length_nil] at hindex
      omega
    · rintro ⟨hne, -⟩
      omega
  · rw [decide_eq_true_iff, ne_eq, List.drop_eq_nil_iff]
    omega

/-- A quote with characters outside the BMP on both sides of a match. -/
def emojiMessage : SearchMessage where
  publicId := "m"
  position := 0
  archived := false
  searchTextVersion := some 1
  searchText := some "no".toList
  searchQuoteText := some "😀 5% 😀".toList
  searchTextHash := some "h"
  searchQuoteHash := some "q"

theorem snippet_spec_emoji :
    ∃ target snippet, searchHit (normalizeQuery " 5% ".toList) emojiMessage =
        some (target, snippet) ∧
      target.start = 3 ∧ target.stop = 5 := by
  obtain ⟨target, snippet, body, hhit, -⟩ := snippet_spec " 5% ".toList emojiMessage (by decide)
  refine ⟨target, snippet, hhit, ?_⟩
  have hvalue : (searchHit (normalizeQuery " 5% ".toList) emojiMessage).map
      (fun hit => (hit.1.start, hit.1.stop)) = some (3, 5) := by
    decide
  rw [hhit, Option.map_some, Option.some_inj, Prod.mk.injEq] at hvalue
  exact hvalue

end IChat.Conversations
