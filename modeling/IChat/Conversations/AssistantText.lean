import IChat.Conversations.CitationRuns
import IChat.Search.SourceRegistry

/-!
# The search text of an answer

`build_assistant_search_text` takes the mathematics out of an answer, has the rest parsed as
Markdown, and joins what is visible of the tokens (`visible`); the parser is a parameter. Runs of
citations are left out of the text tokens, and reading their ids raises on a marker with more than
4300 digits.

* `visible_eq_none_iff`: it raises exactly if a text token has such a marker that is read, in a run
  without a source of the answer before it (`Overlong`).
* `placeholder_not_infix`: the placeholder of the mathematics does not occur in the answer.
-/

namespace IChat.Conversations

open Url

/-! ### Mathematics -/

/-- The text after the first occurrence of a delimiter. -/
def afterDelimiter (delimiter : List Char) : List Char → Option (List Char)
  | [] => none
  | c :: text =>
    if delimiter.isPrefixOf (c :: text) then some ((c :: text).drop delimiter.length)
    else afterDelimiter delimiter text

def backtick : Char := Char.ofNat 96

/-- What follows a match of `_CODE` at the start of a text. -/
def codeAt (text : List Char) : Option (List Char) :=
  let blockFence := List.replicate 3 backtick
  if blockFence.isPrefixOf text then some (Search.afterFence blockFence (text.drop 3))
  else if "~~~".toList.isPrefixOf text then some (Search.afterFence "~~~".toList (text.drop 3))
  else
    let ticks := text.takeWhile (· = backtick)
    let body := text.dropWhile (· = backtick)
    let closing := body.dropWhile fun c => c ≠ backtick ∧ c ≠ '\n'
    if ticks = [] then none
    else if closing.head? = some backtick then some (closing.dropWhile (· = backtick))
    -- two backticks close themselves
    else if 2 ≤ ticks.length then some body
    else none

/-- What follows a match of `_MATH` at the start of a text. -/
def mathAt : List Char → Option (List Char)
  | '\\' :: '[' :: _ :: body => afterDelimiter "\\]".toList body
  | '\\' :: '(' :: _ :: body => afterDelimiter "\\)".toList body
  | '$' :: '$' :: text =>
    let dollars := text.takeWhile (· = '$')
    let body := text.dropWhile (· = '$')
    match afterDelimiter "$$".toList (body.drop 1) with
    | some rest => some (rest.dropWhile (· = '$'))
    -- five or more open and close themselves
    | none => if 3 ≤ dollars.length then some body else none
  | _ => none

/-- `_CODE.split(content)`, after the characters that the last match took; `pending` is the segment
since then. Code is marked. -/
def splitCode : ℕ → List Char → List Char → List (Bool × List Char)
  | _, pending, [] => [(false, pending)]
  | skip + 1, pending, _ :: text => splitCode skip pending text
  | 0, pending, c :: text =>
    match codeAt (c :: text) with
    | none => splitCode 0 (pending ++ [c]) text
    | some rest =>
      (false, pending) :: (true, (c :: text).take ((c :: text).length - rest.length)) ::
        splitCode (text.length - rest.length) [] text

/-- `_MATH.sub(placeholder, part)`, after the characters that the last match took. -/
def replaceMath (placeholder : List Char) : ℕ → List Char → List Char
  | _, [] => []
  | skip + 1, _ :: text => replaceMath placeholder skip text
  | 0, c :: text =>
    match mathAt (c :: text) with
    | none => c :: replaceMath placeholder 0 text
    | some rest => placeholder ++ replaceMath placeholder (text.length - rest.length) text

/-- The loop that makes the placeholder. -/
def extendPlaceholder (content : List Char) : ℕ → List Char → List Char
  | 0, placeholder => placeholder
  | fuel + 1, placeholder =>
    if placeholder <:+: content then extendPlaceholder content fuel (placeholder ++ ['Q'])
    else placeholder

def placeholderOf (content : List Char) : List Char :=
  extendPlaceholder content content.length "ICHATSEARCHMATHEXCLUDED".toList

def cleaned (content : List Char) : List Char :=
  (splitCode 0 [] content).flatMap fun (isCode, part) =>
    if isCode then part else replaceMath (placeholderOf content) 0 part

/-- `str.replace`, after some characters of the last occurrence. -/
def replaceAfter (pattern replacement : List Char) : ℕ → List Char → List Char
  | _, [] => []
  | skip + 1, _ :: text => replaceAfter pattern replacement skip text
  | 0, c :: text =>
    if pattern.isPrefixOf (c :: text) then
      replacement ++ replaceAfter pattern replacement (pattern.length - 1) text
    else c :: replaceAfter pattern replacement 0 text

/-- The loop ends because the placeholder grows, and then it does not occur. -/
theorem placeholder_not_infix (content : List Char) : ¬placeholderOf content <:+: content := by
  have hloop : ∀ fuel placeholder, content.length < placeholder.length + fuel →
      ¬extendPlaceholder content fuel placeholder <:+: content := by
    intro fuel
    induction fuel with
    | zero =>
      intro placeholder hlength hinfix
      have hle := hinfix.length_le
      rw [extendPlaceholder] at hle
      omega
    | succ fuel ih =>
      intro placeholder hlength
      rw [extendPlaceholder]
      split_ifs with hinfix
      · refine ih _ ?_
        rw [List.length_append, List.length_singleton]
        omega
      · exact hinfix
  refine hloop _ _ ?_
  have hlength : "ICHATSEARCHMATHEXCLUDED".toList.length = 23 := by decide
  omega

/-! ### Tokens -/

/-- The types of the tokens that `_visible` tells apart. -/
inductive TokenType where
  | inline
  | text
  | codeInline
  | codeBlock
  | fence
  | softbreak
  | hardbreak
  | image
  | htmlBlock
  | htmlInline
  | other (name : String)
  deriving DecidableEq

/-- A `Token` of the parser. -/
inductive Token where
  | mk (type : TokenType) (content : List Char) (block : Bool) (children : List Token)

section visible

variable (u : UnicodeData) (sourceIds : List ℕ)

mutual

/-- The body of the loop of `_visible`. -/
def Token.visible : Token → Option (List Char)
  | .mk type content block children =>
    match type with
    | .inline => visible children
    | .text => replaceCitations u sourceIds 0 content
    | .codeInline => some content
    | .codeBlock | .fence => some (content ++ [' '])
    | .softbreak | .hardbreak | .image | .htmlBlock | .htmlInline => some [' ']
    | .other _ => some (if block then [' '] else [])

/-- `_visible`. -/
def visible : List Token → Option (List Char)
  | [] => some []
  | token :: tokens =>
    match token.visible with
    | none => none
    | some part => (visible tokens).map (part ++ ·)

end

/-- `build_assistant_search_text`. -/
def buildAssistantSearchText (parse : List Char → List Token) (content : List Char) :
    Option (List Char) :=
  (visible u sourceIds (parse (cleaned content))).map fun text =>
    buildUserSearchText (replaceAfter (placeholderOf content) [' '] 0 text)

end visible

mutual

/-- The texts in which `_visible` looks for citations. -/
def Token.texts : Token → List (List Char)
  | .mk type content _ children =>
    match type with
    | .inline => texts children
    | .text => [content]
    | _ => []

def texts : List Token → List (List Char)
  | [] => []
  | token :: tokens => token.texts ++ texts tokens

end

/-! ### Reading the ids -/

/-- A marker with more than 4300 digits stands in a run before the first one that names a
source. -/
def Overlong (u : UnicodeData) (isSource : ℕ → Prop) (run : List Marker) : Prop :=
  ∃ before m after, run = before ++ m :: after ∧ 4300 < m.digits.length ∧
    ∀ m' ∈ before, ∃ n, intValue u m'.digits = some n ∧ ¬isSource n

variable {u : UnicodeData} {sourceIds : List ℕ}

theorem citesAny_eq_none_iff {run : List Marker} :
    citesAny u sourceIds run = none ↔ Overlong u (· ∈ sourceIds) run := by
  induction run with
  | nil =>
    refine ⟨fun h => (by cases h), ?_⟩
    rintro ⟨before, m, after, hrun, -⟩
    exact absurd hrun (by simp)
  | cons m run ih =>
    have hcons : Overlong u (· ∈ sourceIds) (m :: run) ↔
        4300 < m.digits.length ∨ (Unknown u sourceIds m.digits ∧
          Overlong u (· ∈ sourceIds) run) := by
      constructor
      · rintro ⟨before, m', after, hrun, hlength, hbefore⟩
        cases before with
        | nil =>
          obtain ⟨rfl, rfl⟩ := List.cons.inj hrun
          exact .inl hlength
        | cons first before =>
          obtain ⟨rfl, rfl⟩ := List.cons.inj hrun
          exact .inr ⟨hbefore _ List.mem_cons_self, before, m', after, rfl, hlength,
            fun m'' h => hbefore m'' (List.mem_cons_of_mem _ h)⟩
      · rintro (hlength | ⟨hunknown, before, m', after, rfl, hlength, hbefore⟩)
        · exact ⟨[], m, run, rfl, hlength, nofun⟩
        · refine ⟨m :: before, m', after, rfl, hlength, fun m'' h => ?_⟩
          rcases List.mem_cons.mp h with rfl | hmem
          · exact hunknown
          · exact hbefore m'' hmem
    rw [citesAny, hcons, ← ih]
    cases hvalue : intValue u m.digits with
    | none => simp [intValue_eq_none_iff.mp hvalue]
    | some n =>
      have hshort : ¬4300 < m.digits.length := fun h => by
        rw [intValue_eq_none_iff.mpr h] at hvalue
        cases hvalue
      by_cases hn : n ∈ sourceIds
      · simp [Unknown, hvalue, hn, hshort]
      · simp [Unknown, hvalue, hn, hshort]

theorem replaceCitations_eq_none_iff (hlawful : (pythonClasses u).Lawful) (text : List Char) :
    replaceCitations u sourceIds 0 text = none ↔
      ∃ run ∈ runsOf (pythonClasses u) 0 text, Overlong u (· ∈ sourceIds) run := by
  obtain ⟨hraises, hreads⟩ := @replaceCitations_spec u sourceIds hlawful 0 text
  constructor
  · intro hnone
    by_contra hall
    push Not at hall
    obtain ⟨hsome, -⟩ := hreads fun run hrun hcites =>
      hall run hrun (citesAny_eq_none_iff.mp hcites)
    rw [hsome] at hnone
    cases hnone
  · rintro ⟨run, hrun, hlong⟩
    exact hraises ⟨run, hrun, citesAny_eq_none_iff.mpr hlong⟩

/-- A text token has a marker that cannot be read. -/
def Unreadable (u : UnicodeData) (isSource : ℕ → Prop) (texts : List (List Char)) : Prop :=
  ∃ text ∈ texts, ∃ run ∈ runsOf (pythonClasses u) 0 text, Overlong u isSource run

theorem unreadable_append {isSource : ℕ → Prop} {before after : List (List Char)} :
    Unreadable u isSource (before ++ after) ↔
      Unreadable u isSource before ∨ Unreadable u isSource after := by
  simp only [Unreadable, List.mem_append, or_and_right, exists_or]

mutual

theorem Token.visible_eq_none_iff (hlawful : (pythonClasses u).Lawful) :
    ∀ token : Token, token.visible u sourceIds = none ↔ Unreadable u (· ∈ sourceIds) token.texts
  | .mk type content block children => by
    have hnot : ¬Unreadable u (· ∈ sourceIds) [] := nofun
    cases type with
    | inline => exact visible_eq_none_iff hlawful children
    | text =>
      have htext := @replaceCitations_eq_none_iff u sourceIds hlawful content
      rw [Token.visible, Token.texts, htext]
      simp [Unreadable]
    | codeInline | codeBlock | fence | softbreak | hardbreak | image | htmlBlock | htmlInline
    | other => exact iff_of_false (by simp [Token.visible]) hnot

/-- **Raising.** The visible text cannot be made exactly if a text token has a marker that cannot
be read. -/
theorem visible_eq_none_iff (hlawful : (pythonClasses u).Lawful) :
    ∀ tokens : List Token, visible u sourceIds tokens = none ↔
      Unreadable u (· ∈ sourceIds) (texts tokens)
  | [] => iff_of_false (by simp [visible]) nofun
  | token :: tokens => by
    have hhead := token.visible_eq_none_iff hlawful
    have htail := visible_eq_none_iff hlawful tokens
    rw [texts, unreadable_append, ← hhead, ← htail, visible]
    cases token.visible u sourceIds with
    | none => simp
    | some => simp

end

theorem buildAssistantSearchText_eq_none_iff (hlawful : (pythonClasses u).Lawful)
    {parse : List Char → List Token} {content : List Char} :
    buildAssistantSearchText u sourceIds parse content = none ↔
      Unreadable u (· ∈ sourceIds) (texts (parse (cleaned content))) := by
  rw [buildAssistantSearchText, Option.map_eq_none_iff, visible_eq_none_iff hlawful]

end IChat.Conversations
