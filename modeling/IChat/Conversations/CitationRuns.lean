import Mathlib.Algebra.Group.Nat.Defs
import IChat.Conversations.SearchText
import IChat.General.Collapse
import IChat.General.Url

/-!
# Citations in the search text

The text by which a message is searched leaves its citations out: a run of markers such as `[1]` or
`[2] [3]` becomes a space when one of its ids is a source of the message, and the punctuation that
follows is moved in front of it. The backend does so while it writes the search text of the message
(`visibleText`), the browser while it renders it (`splitText`); then both collapse the white space.

Both look for runs with a regular expression of the same form, but `\d` and `\s` are different
classes in the two languages (`RegexClasses`). `runAt_eq_some_iff` says what a match is;
`pieces` is the text cut at the runs that are left out.
-/

namespace IChat.Conversations

open Url

/-! ### Runs of markers -/

/-- The characters that `\d` and `\s` stand for. -/
structure RegexClasses where
  isDigit : Char → Bool
  isSpace : Char → Bool

/-- The classes of Python: all decimal digits of Unicode, and `str.isspace`. -/
def pythonClasses (u : UnicodeData) : RegexClasses where
  isDigit c := (u.decimal c).isSome
  isSpace := Text.isSpace

def javascriptClasses : RegexClasses where
  isDigit := Char.isDigit
  isSpace := isSearchSpace

/-- A marker, with the white space between it and the one before. -/
structure Marker where
  spaces : List Char
  digits : List Char
  deriving DecidableEq

def Marker.text (m : Marker) : List Char := m.spaces ++ '[' :: m.digits ++ [']']

def runText (run : List Marker) : List Char := run.flatMap Marker.text

section

variable (classes : RegexClasses)

/-- `\[(\d+)\]` at the start of a text: the group, and what follows. -/
def markerAt : List Char → Option (List Char × List Char)
  | '[' :: text =>
    match text.takeWhile classes.isDigit, text.dropWhile classes.isDigit with
    | d :: digits, ']' :: rest => some (d :: digits, rest)
    | _, _ => none
  | _ => none

/-- `(?:\s*\[\d+\])*` at the start of a text, with its length as fuel. -/
def moreMarkers : ℕ → List Char → List Marker × List Char
  | 0, text => ([], text)
  | fuel + 1, text =>
    match markerAt classes (text.dropWhile classes.isSpace) with
    | none => ([], text)
    | some (digits, rest) =>
      let (more, rest) := moreMarkers fuel rest
      (⟨text.takeWhile classes.isSpace, digits⟩ :: more, rest)

/-- `\[\d+\](?:\s*\[\d+\])*` at the start of a text. -/
def runAt (text : List Char) : Option (List Marker × List Char) :=
  match markerAt classes text with
  | none => none
  | some (digits, rest) =>
    let (more, rest) := moreMarkers classes rest.length rest
    some (⟨[], digits⟩ :: more, rest)

end

/-- `[。.！!？?]`. -/
def isSentenceEnd (c : Char) : Bool := c ∈ ['。', '.', '！', '!', '？', '?']

/-! ### The backend -/

/-- `any(int(value) in source_ids for value in ...)`. -/
def citesAny (u : UnicodeData) (sourceIds : List ℕ) : List Marker → Option Bool
  | [] => some false
  | m :: run =>
    match intValue u m.digits with
    | none => none
    | some n => if n ∈ sourceIds then some true else citesAny u sourceIds run

/-- The substitution of `_visible`, after the characters that the last match took. -/
def replaceCitations (u : UnicodeData) (sourceIds : List ℕ) : ℕ → List Char → Option (List Char)
  | _, [] => some []
  | skip + 1, _ :: text => replaceCitations u sourceIds skip text
  | 0, c :: text =>
    match runAt (pythonClasses u) (c :: text) with
    | none => (replaceCitations u sourceIds 0 text).map (c :: ·)
    | some (run, rest) =>
      let trailing := rest.takeWhile isSentenceEnd
      match citesAny u sourceIds run with
      | none => none
      | some cited =>
        (replaceCitations u sourceIds ((runText run).length + trailing.length - 1) text).map
          ((if cited then trailing ++ [' '] else runText run ++ trailing) ++ ·)

/-- A text token of `_visible`, as it is searched. -/
def visibleText (u : UnicodeData) (sourceIds : List ℕ) (value : List Char) : Option (List Char) :=
  (replaceCitations u sourceIds 0 value).map buildUserSearchText

/-! ### The browser -/

/-- The integer that ASCII digits write. -/
def decimalValue (digits : List Char) : ℕ :=
  digits.foldl (fun n d => 10 * n + (d.toNat - '0'.toNat)) 0

/-- The number of JavaScript nearest to an integer, to the even one of two; `none` is `Infinity`. -/
def toNumber (n : ℕ) : Option ℕ :=
  let unit := 2 ^ (n.log2 - 52)
  let below := n / unit
  let half := 2 * (n % unit)
  let nearest := if half < unit ∨ (half = unit ∧ below % 2 = 0) then below else below + 1
  if nearest * unit < 2 ^ 1024 then some (nearest * unit) else none

/-- `HastText` and the element of a citation. -/
inductive HastNode
  | text (value : List Char)
  | citation (citeIds : List (Option ℕ))

/-- The ids of a run that are valid. -/
def citeIds (validIds : List (Option ℕ)) (run : List Marker) : List (Option ℕ) :=
  run.foldl (fun ids m =>
    let n := toNumber (decimalValue m.digits)
    if n ∈ validIds ∧ n ∉ ids then ids ++ [n] else ids) []

/-- The loop of `splitText`, after the characters that the last node took; `pending` is the text
since then. -/
def splitFrom (validIds : List (Option ℕ)) : ℕ → List Char → List Char → List HastNode
  | _, pending, [] => if pending = [] then [] else [.text pending]
  | skip + 1, pending, _ :: text => splitFrom validIds skip pending text
  | 0, pending, c :: text =>
    match runAt javascriptClasses (c :: text) with
    | none => splitFrom validIds 0 (pending ++ [c]) text
    | some (run, rest) =>
      if citeIds validIds run = [] then
        splitFrom validIds ((runText run).length - 1) (pending ++ runText run) text
      else
        let trailing := rest.takeWhile isSentenceEnd
        (if pending ++ trailing = [] then [] else [.text (pending ++ trailing)]) ++
          .citation (citeIds validIds run) ::
            splitFrom validIds ((runText run).length + trailing.length - 1) [] text

def splitText (validIds : List (Option ℕ)) (value : List Char) : List HastNode :=
  match splitFrom validIds 0 [] value with
  | [] => [.text value]
  | nodes => nodes

/-- A node in the search projection, which replaces a citation by a space. -/
def HastNode.searched : HastNode → List Char
  | text value => value
  | citation _ => [' ']

/-- A text value as it is searched in the browser. The ids are those of the sources, as numbers. -/
def browserText (sourceIds : List ℕ) (value : List Char) : List Char :=
  Collapse.collapse isSearchSpace ' '
    ((splitText (sourceIds.map toNumber) value).flatMap HastNode.searched)

/-! ### Matches -/

/-- What a regular expression of this form relies on. -/
structure RegexClasses.Lawful (classes : RegexClasses) : Prop where
  open_not_digit : classes.isDigit '[' = false
  close_not_digit : classes.isDigit ']' = false
  open_not_space : classes.isSpace '[' = false

theorem lawful_javascriptClasses : javascriptClasses.Lawful := ⟨by decide, by decide, by decide⟩

/-- The markers of a run can be read. -/
def Readable (classes : RegexClasses) (run : List Marker) : Prop :=
  ∀ m ∈ run, (∀ c ∈ m.spaces, classes.isSpace c = true) ∧ m.digits ≠ [] ∧
    ∀ c ∈ m.digits, classes.isDigit c = true

/-- No further marker follows. -/
def Stops (classes : RegexClasses) (rest : List Char) : Prop :=
  markerAt classes (rest.dropWhile classes.isSpace) = none

variable {classes : RegexClasses} {text rest rest' digits : List Char} {run run' : List Marker}

theorem markerAt_eq_some_iff (h : classes.Lawful) :
    markerAt classes text = some (digits, rest) ↔
      text = '[' :: digits ++ ']' :: rest ∧ digits ≠ [] ∧
        ∀ c ∈ digits, classes.isDigit c = true := by
  constructor
  · intro hmarker
    unfold markerAt at hmarker
    split at hmarker
    · rename_i text
      split at hmarker
      · rename_i d ds rest' htake hdrop
        cases hmarker
        refine ⟨?_, List.cons_ne_nil d ds, fun c hc => ?_⟩
        · rw [List.cons_append, ← htake, ← hdrop, List.takeWhile_append_dropWhile]
        · rw [← htake] at hc
          exact List.mem_takeWhile_imp hc
      · cases hmarker
    · cases hmarker
  · rintro ⟨rfl, hne, hdigits⟩
    obtain ⟨d, ds, rfl⟩ := List.exists_cons_of_ne_nil hne
    have htake : ((d :: ds) ++ ']' :: rest).takeWhile classes.isDigit = d :: ds := by
      rw [List.takeWhile_append_of_pos hdigits,
        List.takeWhile_cons_of_neg (by simp [h.close_not_digit]), List.append_nil]
    have hdrop : ((d :: ds) ++ ']' :: rest).dropWhile classes.isDigit = ']' :: rest := by
      rw [List.dropWhile_append_of_pos hdigits,
        List.dropWhile_cons_of_neg (by simp [h.close_not_digit])]
    rw [List.cons_append, markerAt, htake, hdrop]
    rfl

theorem runText_cons (m : Marker) (run : List Marker) :
    runText (m :: run) = m.text ++ runText run := rfl

theorem runText_append (run run' : List Marker) :
    runText (run ++ run') = runText run ++ runText run' := List.flatMap_append

/-- The first marker behind white space. -/
theorem markerAt_dropWhile (h : classes.Lawful) {m : Marker} (hm : Readable classes [m])
    (rest : List Char) :
    (m.text ++ rest).takeWhile classes.isSpace = m.spaces ∧
      markerAt classes ((m.text ++ rest).dropWhile classes.isSpace) = some (m.digits, rest) := by
  obtain ⟨hspaces, hne, hdigits⟩ := hm m (List.mem_singleton_self m)
  have hopen : ¬classes.isSpace '[' = true := by simp [h.open_not_space]
  have htext : m.text ++ rest = m.spaces ++ '[' :: (m.digits ++ ']' :: rest) := by
    simp [Marker.text]
  rw [htext, List.takeWhile_append_of_pos hspaces, List.dropWhile_append_of_pos hspaces,
    List.takeWhile_cons_of_neg hopen, List.dropWhile_cons_of_neg hopen, List.append_nil,
    markerAt_eq_some_iff h]
  exact ⟨rfl, rfl, hne, hdigits⟩

theorem moreMarkers_spec (h : classes.Lawful) {fuel : ℕ} (hfuel : text.length ≤ fuel) :
    text = runText (moreMarkers classes fuel text).1 ++ (moreMarkers classes fuel text).2 ∧
      Readable classes (moreMarkers classes fuel text).1 ∧
      Stops classes (moreMarkers classes fuel text).2 := by
  induction fuel generalizing text with
  | zero =>
    obtain rfl := List.length_eq_zero_iff.mp (Nat.le_zero.mp hfuel)
    exact ⟨rfl, nofun, rfl⟩
  | succ fuel ih =>
    rw [moreMarkers]
    cases hmarker : markerAt classes (text.dropWhile classes.isSpace) with
    | none => exact ⟨rfl, nofun, hmarker⟩
    | some found =>
      obtain ⟨digits, rest⟩ := found
      obtain ⟨hdrop, hne, hdigits⟩ := (markerAt_eq_some_iff h).mp hmarker
      have htext : text = Marker.text ⟨text.takeWhile classes.isSpace, digits⟩ ++ rest := by
        have hsplit := List.takeWhile_append_dropWhile (p := classes.isSpace) (l := text)
        rw [hdrop] at hsplit
        conv => lhs; rw [← hsplit]
        simp [Marker.text]
      have hlength : rest.length ≤ fuel := by
        have := congrArg List.length htext
        simp only [Marker.text, List.length_append, List.length_cons, List.length_nil] at this
        omega
      obtain ⟨hrest, hreadable, hstops⟩ := ih hlength
      refine ⟨?_, ?_, hstops⟩
      · dsimp only
        rw [runText_cons, List.append_assoc, ← hrest]
        exact htext
      · intro m hm
        rcases List.mem_cons.mp hm with rfl | hmem
        · exact ⟨fun c hc => List.mem_takeWhile_imp hc, hne, hdigits⟩
        · exact hreadable m hmem

/-- Markers that can be read are the first ones of any longest reading. -/
theorem prefix_of_stops (h : classes.Lawful) (hrun : Readable classes run)
    (hrun' : Readable classes run') (hstops : Stops classes rest')
    (htext : runText run ++ rest = runText run' ++ rest') :
    ∃ more, run' = run ++ more ∧ rest = runText more ++ rest' := by
  induction run generalizing run' with
  | nil => exact ⟨run', rfl, htext⟩
  | cons m run ih =>
    have hm : Readable classes [m] := fun m' hm' => hrun m' (by simp_all)
    rw [runText_cons, List.append_assoc] at htext
    obtain ⟨hspaces, hmarker⟩ := markerAt_dropWhile h hm (runText run ++ rest)
    cases run' with
    | nil =>
      rw [htext] at hmarker
      exact absurd (hstops.symm.trans hmarker) (by simp)
    | cons m' run' =>
      have hm' : Readable classes [m'] := fun m'' hm'' => hrun' m'' (by simp_all)
      rw [runText_cons, List.append_assoc] at htext
      obtain ⟨hspaces', hmarker'⟩ := markerAt_dropWhile h hm' (runText run' ++ rest')
      rw [htext, hspaces'] at hspaces
      rw [htext, hmarker'] at hmarker
      obtain ⟨hdigits, hrest⟩ := Prod.mk.inj (Option.some.inj hmarker)
      obtain rfl : m = m' := by
        cases m
        cases m'
        simp_all
      obtain ⟨more, rfl, hmore⟩ := ih (fun m' hm' => hrun m' (List.mem_cons_of_mem _ hm'))
        (fun m' hm' => hrun' m' (List.mem_cons_of_mem _ hm')) hrest.symm
      exact ⟨more, rfl, hmore⟩

/-- **Matches.** A run is found where the longest readable sequence of markers starts. -/
theorem runAt_eq_some_iff (h : classes.Lawful) :
    runAt classes text = some (run, rest) ↔
      (∃ digits more, run = ⟨[], digits⟩ :: more) ∧ Readable classes run ∧ Stops classes rest ∧
        text = runText run ++ rest := by
  have hforward : ∀ run rest, runAt classes text = some (run, rest) →
      (∃ digits more, run = ⟨[], digits⟩ :: more) ∧ Readable classes run ∧ Stops classes rest ∧
        text = runText run ++ rest := by
    intro run rest hrun
    rw [runAt] at hrun
    cases hmarker : markerAt classes text with
    | none =>
      rw [hmarker] at hrun
      cases hrun
    | some found =>
      obtain ⟨digits, after⟩ := found
      rw [hmarker] at hrun
      obtain ⟨htext, hne, hdigits⟩ := (markerAt_eq_some_iff h).mp hmarker
      obtain ⟨hmore, hreadable, hstops⟩ := @moreMarkers_spec classes after h _ le_rfl
      obtain ⟨rfl, rfl⟩ := Prod.mk.inj (Option.some.inj hrun)
      refine ⟨⟨digits, _, rfl⟩, fun m hm => ?_, hstops, ?_⟩
      · rcases List.mem_cons.mp hm with rfl | hmem
        · exact ⟨nofun, hne, hdigits⟩
        · exact hreadable m hmem
      · rw [runText_cons, List.append_assoc, ← hmore, htext]
        simp [Marker.text]
  refine ⟨hforward run rest, ?_⟩
  rintro ⟨⟨digits, more, rfl⟩, hreadable, hstops, htext⟩
  have hmarker : markerAt classes text = some (digits, runText more ++ rest) := by
    obtain ⟨-, hne, hdigits⟩ := hreadable _ List.mem_cons_self
    rw [markerAt_eq_some_iff h, htext]
    exact ⟨by simp [runText_cons, Marker.text], hne, hdigits⟩
  obtain ⟨found, hfound⟩ : ∃ found, runAt classes text = some found := by
    rw [runAt, hmarker]
    exact ⟨_, rfl⟩
  obtain ⟨run, after⟩ := found
  obtain ⟨⟨digits', more', rfl⟩, hreadable', hstops', htext'⟩ := hforward run after hfound
  obtain ⟨extra, hextra, hrest⟩ := prefix_of_stops h hreadable hreadable' hstops'
    (htext.symm.trans htext')
  obtain ⟨extra', hextra', -⟩ := prefix_of_stops h hreadable' hreadable hstops
    (htext'.symm.trans htext)
  have hnil : extra = [] := by
    have hlength := congrArg List.length (hextra.trans (congrArg (· ++ extra) hextra'))
    simp only [List.length_append] at hlength
    exact List.length_eq_zero_iff.mp (by omega)
  rw [hnil, List.append_nil] at hextra
  rw [hnil] at hrest
  rw [hfound, hextra, hrest]
  rfl

/-- A run is found at every readable sequence of markers, and starts with it. -/
theorem exists_runAt (h : classes.Lawful) {more : List Marker}
    (hrun : Readable classes (⟨[], digits⟩ :: more)) :
    ∃ extra rest', runAt classes (runText (⟨[], digits⟩ :: more) ++ rest) =
        some (⟨[], digits⟩ :: more ++ extra, rest') ∧ rest = runText extra ++ rest' := by
  obtain ⟨-, hne, hdigits⟩ := hrun _ List.mem_cons_self
  have hmarker : markerAt classes (runText (⟨[], digits⟩ :: more) ++ rest) =
      some (digits, runText more ++ rest) := by
    rw [markerAt_eq_some_iff h]
    exact ⟨by simp [runText_cons, Marker.text], hne, hdigits⟩
  obtain ⟨found, hfound⟩ : ∃ found,
      runAt classes (runText (⟨[], digits⟩ :: more) ++ rest) = some found := by
    rw [runAt, hmarker]
    exact ⟨_, rfl⟩
  obtain ⟨-, hread, hstops, htext⟩ := (runAt_eq_some_iff h).mp hfound
  obtain ⟨extra, hextra, hrest⟩ := prefix_of_stops h hrun hread hstops htext
  exact ⟨extra, found.2, by rw [hfound, ← hextra], hrest⟩

/-! ### Cutting a text at its citations -/

/-- A character that is kept, or a run that is left out, with the punctuation behind it. -/
inductive Piece
  | char (c : Char)
  | citation (run : List Marker) (trailing : List Char)

namespace Piece

/-- The piece as it is searched. -/
def searched : Piece → List Char
  | char c => [c]
  | citation _ trailing => trailing ++ [' ']

/-- The piece as it is written. -/
def written : Piece → List Char
  | char c => [c]
  | citation run trailing => runText run ++ trailing

/-- The run that is left out. -/
def run? : Piece → Option (List Marker)
  | char _ => none
  | citation run _ => some run

end Piece

/-- A text cut at the runs that are left out, after the characters that the last piece took. -/
def pieces (classes : RegexClasses) (cited : List Marker → Bool) : ℕ → List Char → List Piece
  | _, [] => []
  | skip + 1, _ :: text => pieces classes cited skip text
  | 0, c :: text =>
    match runAt classes (c :: text) with
    | none => .char c :: pieces classes cited 0 text
    | some (run, rest) =>
      if cited run then
        let trailing := rest.takeWhile isSentenceEnd
        .citation run trailing ::
          pieces classes cited ((runText run).length + trailing.length - 1) text
      else .char c :: pieces classes cited 0 text

variable {cited : List Marker → Bool} {c : Char}

theorem pieces_skip (skip : ℕ) (text : List Char) :
    pieces classes cited skip text = pieces classes cited 0 (text.drop skip) := by
  induction text generalizing skip with
  | nil => simp [pieces]
  | cons c text ih =>
    cases skip with
    | zero => rfl
    | succ skip =>
      rw [pieces, List.drop_succ_cons]
      exact ih skip

theorem pieces_char (h : ∀ run rest, runAt classes (c :: text) = some (run, rest) →
    cited run = false) :
    pieces classes cited 0 (c :: text) = .char c :: pieces classes cited 0 text := by
  rw [pieces]
  cases hrun : runAt classes (c :: text) with
  | none => rfl
  | some found => simp [h found.1 found.2 hrun]

/-- What is skipped behind the first character of a run is the rest of it and what is moved. -/
theorem drop_run (hlawful : classes.Lawful) (hrun : runAt classes (c :: text) = some (run, rest))
    (trailing after : List Char) (hrest : rest = trailing ++ after) :
    text.drop ((runText run).length + trailing.length - 1) = after := by
  obtain ⟨⟨digits, more, rfl⟩, -, -, htext⟩ := (runAt_eq_some_iff hlawful).mp hrun
  have hpositive : 0 < (runText (⟨[], digits⟩ :: more)).length := by
    simp [runText_cons, Marker.text]
  have hdrop : (c :: text).drop ((runText (⟨[], digits⟩ :: more)).length + trailing.length) =
      after := by
    rw [htext, hrest, ← List.append_assoc, ← List.length_append, List.drop_left]
  obtain ⟨n, hn⟩ : ∃ n, (runText (⟨[], digits⟩ :: more)).length + trailing.length = n + 1 :=
    ⟨(runText (⟨[], digits⟩ :: more)).length + trailing.length - 1, by omega⟩
  rw [hn] at hdrop ⊢
  exact hdrop

theorem pieces_run (hlawful : classes.Lawful) (hrun : runAt classes (c :: text) = some (run, rest))
    (hcited : cited run = true) :
    pieces classes cited 0 (c :: text) =
      .citation run (rest.takeWhile isSentenceEnd) ::
        pieces classes cited 0 (rest.dropWhile isSentenceEnd) := by
  rw [pieces, hrun]
  simp only [hcited, if_true]
  rw [pieces_skip, drop_run hlawful hrun _ _ List.takeWhile_append_dropWhile.symm]

/-- A run starts with a bracket. -/
theorem pieces_of_ne_open (hlawful : classes.Lawful) (hc : c ≠ '[') :
    pieces classes cited 0 (c :: text) = .char c :: pieces classes cited 0 text := by
  refine pieces_char fun run rest hrun => ?_
  obtain ⟨⟨digits, more, rfl⟩, -, -, htext⟩ := (runAt_eq_some_iff hlawful).mp hrun
  rw [runText_cons] at htext
  exact absurd (List.cons.inj htext).1 hc

theorem pieces_append (hlawful : classes.Lawful) {s : List Char} (hs : ∀ c ∈ s, c ≠ '[') :
    pieces classes cited 0 (s ++ text) = s.map .char ++ pieces classes cited 0 text := by
  induction s with
  | nil => rfl
  | cons c s ih =>
    rw [List.cons_append, pieces_of_ne_open hlawful (hs c List.mem_cons_self),
      ih fun d hd => hs d (List.mem_cons_of_mem _ hd)]
    rfl

/-- One marker, none of whose runs is left out. -/
theorem pieces_marker (hlawful : classes.Lawful) {m : Marker} (hm : Readable classes [m])
    (h : ∀ run rest, runAt classes ('[' :: (m.digits ++ ']' :: text)) = some (run, rest) →
      cited run = false) :
    pieces classes cited 0 (m.text ++ text) = m.text.map .char ++ pieces classes cited 0 text := by
  obtain ⟨hspaces, -, hdigits⟩ := hm m (List.mem_singleton_self m)
  have hspaces' : ∀ c ∈ m.spaces, c ≠ '[' := by
    rintro c hc rfl
    exact absurd (hspaces '[' hc) (by simp [hlawful.open_not_space])
  have hdigits' : ∀ c ∈ m.digits ++ [']'], c ≠ '[' := by
    rintro c hc rfl
    rcases List.mem_append.mp hc with hdigit | hclose
    · have hdigit := hdigits '[' hdigit
      rw [hlawful.open_not_digit] at hdigit
      cases hdigit
    · exact absurd (List.mem_singleton.mp hclose) (by decide)
  have htext : m.text ++ text = m.spaces ++ '[' :: ((m.digits ++ [']']) ++ text) := by
    simp [Marker.text]
  rw [htext, pieces_append hlawful hspaces', pieces_char, pieces_append hlawful hdigits']
  · simp [Marker.text]
  · intro run rest hrun
    rw [List.append_assoc] at hrun
    exact h run rest hrun

/-- A run is kept when none of its markers is cited. -/
theorem pieces_of_not_cited (hlawful : classes.Lawful) {skipped : List Char → Prop}
    (hskipped : ∀ run, (∀ m ∈ run, skipped m.digits) → cited run = false)
    (hrun : Readable classes run) (hstops : Stops classes rest)
    (h : ∀ m ∈ run, skipped m.digits) :
    pieces classes cited 0 (runText run ++ rest) =
      (runText run).map .char ++ pieces classes cited 0 rest := by
  induction run with
  | nil => rfl
  | cons m run ih =>
    have hreadable : Readable classes run := fun m' hm' => hrun m' (List.mem_cons_of_mem _ hm')
    rw [runText_cons, List.append_assoc, pieces_marker hlawful,
      ih hreadable fun m' hm' => h m' (List.mem_cons_of_mem _ hm')]
    · simp
    · intro m' hm'
      exact hrun m' (by simp_all)
    · intro run' rest' hrun'
      have hfound : runAt classes ('[' :: (m.digits ++ ']' :: (runText run ++ rest))) =
          some (⟨[], m.digits⟩ :: run, rest) := by
        refine (runAt_eq_some_iff hlawful).mpr ⟨⟨_, _, rfl⟩, fun m' hm' => ?_, hstops, ?_⟩
        · rcases List.mem_cons.mp hm' with rfl | hmem
          · exact ⟨nofun, (hrun m List.mem_cons_self).2⟩
          · exact hreadable m' hmem
        · simp [runText_cons, Marker.text]
      obtain ⟨rfl, -⟩ := Prod.mk.inj (Option.eq_some_unique hrun' hfound)
      refine hskipped _ fun m' hm' => ?_
      rcases List.mem_cons.mp hm' with rfl | hmem
      · exact h m List.mem_cons_self
      · exact h m' (List.mem_cons_of_mem _ hmem)

theorem searched_chars (s : List Char) : (s.map Piece.char).flatMap Piece.searched = s := by
  induction s with
  | nil => rfl
  | cons c s ih => exact congrArg (c :: ·) ih

theorem run?_chars (s : List Char) : (s.map Piece.char).filterMap Piece.run? = [] := by
  induction s with
  | nil => rfl
  | cons c s ih => exact ih

/-- **Induction over the pieces of a text.** -/
theorem pieces_induction (hlawful : classes.Lawful) {P : List Char → Prop} (hnil : P [])
    (hchar : ∀ c text,
      (∀ run rest, runAt classes (c :: text) = some (run, rest) → cited run = false) →
        P text → P (c :: text))
    (hrun : ∀ c text run rest, runAt classes (c :: text) = some (run, rest) → cited run = true →
      P (rest.dropWhile isSentenceEnd) → P (c :: text)) (text : List Char) : P text := by
  have hlength : ∀ n, ∀ text : List Char, text.length ≤ n → P text := by
    intro n
    induction n with
    | zero =>
      intro text hn
      obtain rfl := List.length_eq_zero_iff.mp (Nat.le_zero.mp hn)
      exact hnil
    | succ n ih =>
      intro text hn
      cases text with
      | nil => exact hnil
      | cons c text =>
        by_cases h : ∀ run rest, runAt classes (c :: text) = some (run, rest) → cited run = false
        · exact hchar c text h (ih text (by simpa using hn))
        · push Not at h
          obtain ⟨run, rest, hfound, hcited⟩ := h
          refine hrun c text run rest hfound (by simpa using hcited) (ih _ ?_)
          obtain ⟨⟨digits, more, rfl⟩, -, -, htext⟩ := (runAt_eq_some_iff hlawful).mp hfound
          have hle := (List.dropWhile_suffix isSentenceEnd (l := rest)).length_le
          have hsum := congrArg List.length htext
          simp only [runText_cons, Marker.text, List.length_cons, List.length_append] at hsum hn
          omega
  exact hlength text.length text le_rfl

/-- The pieces are the text. -/
theorem written_pieces (hlawful : classes.Lawful) (text : List Char) :
    (pieces classes cited 0 text).flatMap Piece.written = text := by
  let P (text : List Char) : Prop := (pieces classes cited 0 text).flatMap Piece.written = text
  refine @pieces_induction classes cited hlawful P rfl ?_ ?_ text
  · intro c text h ih
    show (pieces classes cited 0 (c :: text)).flatMap Piece.written = c :: text
    rw [pieces_char h, List.flatMap_cons, ih]
    rfl
  · intro c text run rest hrun hcited ih
    obtain ⟨-, -, -, htext⟩ := (runAt_eq_some_iff hlawful).mp hrun
    show (pieces classes cited 0 (c :: text)).flatMap Piece.written = c :: text
    rw [pieces_run hlawful hrun hcited, List.flatMap_cons, ih, htext, Piece.written,
      List.append_assoc, List.takeWhile_append_dropWhile]

/-! ### Both sides leave out their pieces -/

/-- The matches of the expression, each with the punctuation behind it, after the characters that
the last one took. -/
def runsOf (classes : RegexClasses) : ℕ → List Char → List (List Marker)
  | _, [] => []
  | skip + 1, _ :: text => runsOf classes skip text
  | 0, c :: text =>
    match runAt classes (c :: text) with
    | none => runsOf classes 0 text
    | some (run, rest) =>
      run :: runsOf classes
        ((runText run).length + (rest.takeWhile isSentenceEnd).length - 1) text

/-- The runs that the backend leaves out. -/
def backendCites (u : UnicodeData) (sourceIds : List ℕ) (run : List Marker) : Bool :=
  citesAny u sourceIds run = some true

/-- The runs that the browser replaces by a citation. -/
def browserCites (sourceIds : List ℕ) (run : List Marker) : Bool :=
  citeIds (sourceIds.map toNumber) run ≠ []

/-- What Unicode says of decimal digits. -/
structure DecimalDigits (u : UnicodeData) : Prop where
  ascii : ∀ c : Char, c.toNat < 128 → u.decimal c = UnicodeData.ascii.decimal c
  not_space : ∀ c : Char, (u.decimal c).isSome → isSearchSpace c = false

variable {u : UnicodeData} {sourceIds : List ℕ}

theorem DecimalDigits.lawful (h : DecimalDigits u) : (pythonClasses u).Lawful where
  open_not_digit := by
    show (u.decimal '[').isSome = false
    rw [h.ascii '[' (by decide)]
    decide
  close_not_digit := by
    show (u.decimal ']').isSome = false
    rw [h.ascii ']' (by decide)]
    decide
  open_not_space := by
    show Text.isSpace '[' = false
    decide

/-- A marker that the backend reads, and whose id is none of the sources. -/
def Unknown (u : UnicodeData) (sourceIds : List ℕ) (digits : List Char) : Prop :=
  ∃ n, intValue u digits = some n ∧ n ∉ sourceIds

theorem citesAny_eq_false_iff {run : List Marker} :
    citesAny u sourceIds run = some false ↔ ∀ m ∈ run, Unknown u sourceIds m.digits := by
  induction run with
  | nil => simp [citesAny]
  | cons m run ih =>
    rw [citesAny, List.forall_mem_cons, ← ih]
    cases hvalue : intValue u m.digits with
    | none => simp [Unknown, hvalue]
    | some n =>
      by_cases hn : n ∈ sourceIds
      · simp [Unknown, hvalue, hn]
      · simp [Unknown, hvalue, hn]

theorem backendCites_of_unknown {run : List Marker}
    (h : ∀ m ∈ run, Unknown u sourceIds m.digits) : backendCites u sourceIds run = false := by
  rw [backendCites, citesAny_eq_false_iff.mpr h]
  rfl

theorem isSentenceEnd_ne_open {s : List Char} : ∀ c ∈ s.takeWhile isSentenceEnd, c ≠ '[' := by
  rintro c hc rfl
  exact absurd (List.mem_takeWhile_imp hc) (by decide)

/-- The substitution raises at the first match that does, and leaves out its pieces otherwise. -/
theorem replaceCitations_spec (hlawful : (pythonClasses u).Lawful) (skip : ℕ) (text : List Char) :
    ((∃ run ∈ runsOf (pythonClasses u) skip text, citesAny u sourceIds run = none) →
      replaceCitations u sourceIds skip text = none) ∧
    ((∀ run ∈ runsOf (pythonClasses u) skip text, citesAny u sourceIds run ≠ none) →
      replaceCitations u sourceIds skip text =
          some ((pieces (pythonClasses u) (backendCites u sourceIds) skip text).flatMap
            Piece.searched) ∧
        (pieces (pythonClasses u) (backendCites u sourceIds) skip text).filterMap Piece.run? =
          (runsOf (pythonClasses u) skip text).filter (backendCites u sourceIds)) := by
  -- on the text; a run found skips over its own characters
  induction text generalizing skip with
  | nil => simp [runsOf, replaceCitations, pieces]
  | cons c text ih =>
    cases skip with
    | succ skip => exact ih skip
    | zero =>
      cases hrun : runAt (pythonClasses u) (c :: text) with
      | none =>
        have hruns : runsOf (pythonClasses u) 0 (c :: text) = runsOf (pythonClasses u) 0 text := by
          rw [runsOf, hrun]
        have hreplace : replaceCitations u sourceIds 0 (c :: text) =
            (replaceCitations u sourceIds 0 text).map (c :: ·) := by
          rw [replaceCitations, hrun]
        rw [hruns, hreplace, pieces_char (by simp [hrun])]
        refine ⟨fun hraises => ?_, fun hreads => ?_⟩
        · rw [(ih 0).1 hraises]
          rfl
        · obtain ⟨hsome, hpieces⟩ := (ih 0).2 hreads
          rw [hsome]
          exact ⟨rfl, hpieces⟩
      | some found =>
        obtain ⟨run, rest⟩ := found
        let skip := (runText run).length + (rest.takeWhile isSentenceEnd).length - 1
        have hruns : runsOf (pythonClasses u) 0 (c :: text) =
            run :: runsOf (pythonClasses u) skip text := by
          rw [runsOf, hrun]
        have hreplace : replaceCitations u sourceIds 0 (c :: text) =
            match citesAny u sourceIds run with
            | none => none
            | some cited => (replaceCitations u sourceIds skip text).map
                ((if cited then rest.takeWhile isSentenceEnd ++ [' ']
                  else runText run ++ rest.takeWhile isSentenceEnd) ++ ·) := by
          rw [replaceCitations, hrun]
        have hskip : pieces (pythonClasses u) (backendCites u sourceIds) skip text =
            pieces (pythonClasses u) (backendCites u sourceIds) 0
              (rest.dropWhile isSentenceEnd) := by
          rw [pieces_skip, drop_run hlawful hrun _ _ List.takeWhile_append_dropWhile.symm]
        rw [hruns, hreplace]
        refine ⟨fun hraises => ?_, fun hreads => ?_⟩
        · obtain ⟨run', hrun', hnone⟩ := hraises
          rcases List.mem_cons.mp hrun' with rfl | hmem
          · rw [hnone]
          · rw [(ih skip).1 ⟨run', hmem, hnone⟩]
            cases citesAny u sourceIds run <;> rfl
        -- a run that cites becomes a gap, any other is searched as the text it is
        · obtain ⟨hsome, hpieces⟩ := (ih skip).2 fun run' hmem =>
            hreads run' (List.mem_cons_of_mem _ hmem)
          rw [hsome, hskip]
          rw [hskip] at hpieces
          cases hcited : citesAny u sourceIds run with
          | none => exact absurd hcited (hreads run List.mem_cons_self)
          | some cited =>
            cases cited with
            | true =>
              have hcites : backendCites u sourceIds run = true := by
                rw [backendCites, hcited]
                rfl
              rw [pieces_run hlawful hrun hcites, List.flatMap_cons, List.filter_cons_of_pos hcites,
                ← hpieces]
              exact ⟨rfl, rfl⟩
            | false =>
              have hunknown := citesAny_eq_false_iff.mp hcited
              have hcites : ¬backendCites u sourceIds run = true := by
                rw [backendCites_of_unknown hunknown]
                exact Bool.false_ne_true
              obtain ⟨-, hreadable, hstops, htext⟩ := (runAt_eq_some_iff hlawful).mp hrun
              have hsplit : pieces (pythonClasses u) (backendCites u sourceIds) 0 rest =
                  (rest.takeWhile isSentenceEnd).map .char ++
                    pieces (pythonClasses u) (backendCites u sourceIds) 0
                      (rest.dropWhile isSentenceEnd) := by
                rw [← pieces_append hlawful isSentenceEnd_ne_open,
                  List.takeWhile_append_dropWhile]
              rw [htext, pieces_of_not_cited hlawful (fun run h => backendCites_of_unknown h)
                hreadable hstops hunknown, hsplit, List.flatMap_append, List.flatMap_append,
                searched_chars, searched_chars, List.filterMap_append, List.filterMap_append,
                run?_chars, run?_chars, List.filter_cons_of_neg hcites, ← hpieces]
              simp

theorem citeIds_eq_nil_iff {validIds : List (Option ℕ)} {run : List Marker} :
    citeIds validIds run = [] ↔ ∀ m ∈ run, toNumber (decimalValue m.digits) ∉ validIds := by
  have hfold : ∀ (run : List Marker) (ids : List (Option ℕ)),
      run.foldl (fun ids m =>
        let n := toNumber (decimalValue m.digits)
        if n ∈ validIds ∧ n ∉ ids then ids ++ [n] else ids) ids = [] ↔
      ids = [] ∧ ∀ m ∈ run, toNumber (decimalValue m.digits) ∉ validIds := by
    intro run
    induction run with
    | nil => simp
    | cons m run ih =>
      intro ids
      rw [List.foldl_cons, ih, List.forall_mem_cons, ← and_assoc]
      refine and_congr_left fun _ => ?_
      dsimp only
      split_ifs with h
      · simp [h.1]
      · constructor
        · rintro rfl
          exact ⟨rfl, fun hmem => h ⟨hmem, List.not_mem_nil⟩⟩
        · exact And.left
  rw [citeIds, hfold, and_iff_right rfl]

/-- The nodes of a text value are its pieces. -/
theorem searched_splitFrom (skip : ℕ) (pending text : List Char) :
    (splitFrom (sourceIds.map toNumber) skip pending text).flatMap HastNode.searched =
      pending ++ (pieces javascriptClasses (browserCites sourceIds) skip text).flatMap
        Piece.searched := by
  have hlawful := lawful_javascriptClasses
  induction text generalizing skip pending with
  | nil =>
    cases pending <;> simp [splitFrom, pieces, HastNode.searched]
  | cons c text ih =>
    cases skip with
    | succ skip => exact ih skip pending
    | zero =>
      rw [splitFrom]
      cases hrun : runAt javascriptClasses (c :: text) with
      | none =>
        rw [pieces_char (by simp [hrun]), ih, List.append_assoc]
        rfl
      | some found =>
        obtain ⟨run, rest⟩ := found
        dsimp only
        split_ifs with hids htext
        · have hunknown := citeIds_eq_nil_iff.mp hids
          have hdrop := drop_run hlawful hrun [] rest rfl
          rw [List.length_nil, Nat.add_zero] at hdrop
          obtain ⟨-, hreadable, hstops, htext⟩ := (runAt_eq_some_iff hlawful).mp hrun
          let skipped (digits : List Char) : Prop :=
            toNumber (decimalValue digits) ∉ sourceIds.map toNumber
          have hskipped : ∀ run : List Marker, (∀ m ∈ run, skipped m.digits) →
              browserCites sourceIds run = false := by
            intro run hrun
            rw [browserCites, decide_eq_false_iff_not, not_not]
            exact citeIds_eq_nil_iff.mpr hrun
          rw [ih, pieces_skip, hdrop, htext, pieces_of_not_cited hlawful hskipped hreadable hstops
            hunknown, List.flatMap_append, searched_chars, List.append_assoc]
        · obtain ⟨hpending, htrailing⟩ := List.append_eq_nil_iff.mp htext
          rw [pieces_run hlawful hrun (decide_eq_true hids), List.nil_append, List.flatMap_cons, ih,
            pieces_skip, drop_run hlawful hrun _ _ List.takeWhile_append_dropWhile.symm, hpending,
            List.flatMap_cons, Piece.searched, htrailing]
          rfl
        · rw [pieces_run hlawful hrun (decide_eq_true hids), List.flatMap_append, List.flatMap_cons,
            List.flatMap_cons, ih, pieces_skip,
            drop_run hlawful hrun _ _ List.takeWhile_append_dropWhile.symm, List.flatMap_cons,
            Piece.searched]
          simp [HastNode.searched]

theorem searched_splitText (value : List Char) :
    (splitText (sourceIds.map toNumber) value).flatMap HastNode.searched =
      (pieces javascriptClasses (browserCites sourceIds) 0 value).flatMap Piece.searched := by
  have hsplit := @searched_splitFrom sourceIds 0 [] value
  rw [List.nil_append] at hsplit
  rw [← hsplit, splitText]
  split
  · rename_i hnil
    rw [hnil]
    cases value with
    | nil => rfl
    | cons =>
      -- the first piece of a text is searched by a character at least
      rw [hnil, pieces] at hsplit
      split at hsplit
      · cases hsplit
      · split_ifs at hsplit
        · rw [List.flatMap_nil, List.flatMap_cons, Piece.searched] at hsplit
          simp at hsplit
        · cases hsplit
  · rfl

end IChat.Conversations
