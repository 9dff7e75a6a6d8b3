import IChat.Conversations.CitationRuns

/-!
# Whether both sides leave out the same citations

The backend and the browser read a text value with different classes of digits and white space, and
the browser compares ids as numbers of JavaScript. What they search for is the same exactly under
`Meets`: the backend can read its markers, leaves out only runs that both read, and leaves out every
part of a run that the browser replaces (`backendParts`); and a run of several parts does not pull
punctuation to the end of a word.

* `compare_pieces`: when the backend leaves out common runs only, its text differs from that of the
  browser in the runs of the browser (`Compare`): by a bracket that it keeps, or by white space.
* `Compare.collapse_eq` and `Compare.agrees_of_collapse_eq`: the two are the same with their white
  space collapsed exactly if there is no such bracket, and white space makes no new word.
* `visibleText_eq_browserText_iff` puts them together.
-/

namespace IChat.Conversations

open Url Collapse

/-! ### The condition -/

/-- A run that both expressions read. -/
def Common (run : List Marker) : Prop :=
  ∀ m ∈ run, (∀ c ∈ m.digits, c.isDigit = true) ∧ ∀ c ∈ m.spaces, isSearchSpace c = true

/-- Python reads the white space before a marker. -/
def Joined (m : Marker) : Bool := m.spaces.all Text.isSpace

/-- The runs that the backend reads in a run of the browser. -/
def backendParts : List Marker → List (List Marker)
  | [] => []
  | m :: run =>
    match backendParts run with
    | [] => [[m]]
    | part :: parts =>
      if part.head?.all Joined then (m :: part) :: parts else [m] :: part :: parts

/-- Nothing stands at the end of these pieces that what follows would be joined to. -/
def AtWordStart (before : List Piece) : Bool :=
  match before.getLast? with
  | some (.char c) => isSearchSpace c
  | _ => true

/-- The condition on a text value. -/
structure Meets (u : UnicodeData) (sourceIds : List ℕ) (value : List Char) : Prop where
  reads : ∀ run ∈ runsOf (pythonClasses u) 0 value, citesAny u sourceIds run ≠ none
  common : ∀ run ∈ runsOf (pythonClasses u) 0 value, backendCites u sourceIds run = true →
    Common run
  parts : ∀ before run trailing after,
    pieces javascriptClasses (browserCites sourceIds) 0 value =
        before ++ .citation run trailing :: after →
      (∀ part ∈ backendParts run, backendCites u sourceIds part = true) ∧
        ((backendParts run).length ≤ 1 ∨ trailing = [] ∨ AtWordStart before = true)

/-! ### White space -/

theorem collapseAfter_eq_after (quiet : Bool) (s : List Char) :
    collapseAfter quiet s = after isSearchSpace ' ' quiet s := by
  induction s generalizing quiet with
  | nil => rfl
  | cons c s ih =>
    rw [collapseAfter, after, ih, ih]

/-- The browser collapses white space as the backend does. -/
theorem buildUserSearchText_eq_collapse (content : List Char) :
    buildUserSearchText content = collapse isSearchSpace ' ' content := by
  have htext := foldl_append_eq isSearchSpace_space plain_nil content
  rw [List.nil_append, glued, Bool.not_false] at htext
  rw [buildUserSearchText, Text.stripChars, collapseAfter_eq_after,
    dropWhile_after isSearchSpace_space, collapse, ← htext, trim]
  have hdouble := @getLast?_ne_space _ _ isSearchSpace ' ' isSearchSpace_space content
  generalize content.foldl (append isSearchSpace ' ') [] = out at hdouble
  split_ifs with hlast
  · obtain ⟨init, rfl⟩ := List.getLast?_eq_some_iff.mp hlast
    rw [Text.rstrip_append_singleton, if_pos (decide_eq_true rfl), List.dropLast_concat]
    exact Text.rstrip_eq_self fun c hc => decide_eq_false fun heq => hdouble rfl (heq ▸ hc)
  · exact Text.rstrip_eq_self fun c hc => decide_eq_false fun heq => hlast (heq ▸ hc)

/-! ### Comparing the two texts -/

/-- The text of the backend stands against the pieces of the browser: it keeps a bracket of a run
that the browser replaces, when it does not leave out all parts of the run; and otherwise there is
more white space when the run has several parts. -/
inductive Compare (u : UnicodeData) (sourceIds : List ℕ) : List Char → List Piece → Prop
  | nil : Compare u sourceIds [] []
  | char (c : Char) {s : List Char} {ps : List Piece} (h : Compare u sourceIds s ps) :
      Compare u sourceIds (c :: s) (.char c :: ps)
  | kept {kept s trailing : List Char} {run : List Marker} {ps : List Piece}
      (hparts : ¬∀ part ∈ backendParts run, backendCites u sourceIds part = true)
      (hkept : '[' ∈ kept) (htrailing : ∀ c ∈ trailing, isSentenceEnd c = true)
      (h : Compare u sourceIds s ps) :
      Compare u sourceIds (kept ++ s) (.citation run trailing :: ps)
  | cut {gap s trailing : List Char} {run : List Marker} {ps : List Piece}
      (hparts : ∀ part ∈ backendParts run, backendCites u sourceIds part = true)
      (hgap : ∀ c ∈ gap, isSearchSpace c = true)
      (hone : gap = [] ↔ (backendParts run).length ≤ 1)
      (htrailing : ∀ c ∈ trailing, isSentenceEnd c = true) (h : Compare u sourceIds s ps) :
      Compare u sourceIds (gap ++ (trailing ++ ' ' :: s)) (.citation run trailing :: ps)

/-- The condition on the runs of the browser, when a symbol stands before the pieces or not. -/
def Agrees (u : UnicodeData) (sourceIds : List ℕ) : Bool → List Piece → Prop
  | _, [] => True
  | _, .char c :: ps => Agrees u sourceIds (!isSearchSpace c) ps
  | g, .citation run trailing :: ps =>
    ((∀ part ∈ backendParts run, backendCites u sourceIds part = true) ∧
      ((backendParts run).length ≤ 1 ∨ trailing = [] ∨ g = false)) ∧
      Agrees u sourceIds false ps

variable {u : UnicodeData} {sourceIds : List ℕ} {s : List Char} {ps : List Piece} {g : Bool}

theorem not_isSearchSpace_of_isSentenceEnd {c : Char} (h : isSentenceEnd c = true) :
    isSearchSpace c = false := by
  have hall : ∀ c ∈ ['。', '.', '！', '!', '？', '?'], isSearchSpace c = false :=
    Text.forall_mem_of_all (by decide)
  exact hall c (of_decide_eq_true h)

theorem searched_citation (run : List Marker) (trailing : List Char) (ps : List Piece) :
    (Piece.citation run trailing :: ps).flatMap Piece.searched =
      trailing ++ ' ' :: ps.flatMap Piece.searched := by
  simp [Piece.searched]

/-- What is left of the text after a citation starts at a space. -/
theorem joints_trailing {trailing : List Char} (t : List Char) :
    joints isSearchSpace g (trailing ++ ' ' :: t) =
      joints isSearchSpace g trailing + joints isSearchSpace false t := by
  rw [joints_append, joints, isSearchSpace_space]
  simp

theorem Compare.collapse_eq (h : Compare u sourceIds s ps) (hagrees : Agrees u sourceIds g ps)
    {out : List Char} (hout : Plain isSearchSpace ' ' out)
    (hg : glued isSearchSpace false out = g) :
    s.foldl (append isSearchSpace ' ') out =
      (ps.flatMap Piece.searched).foldl (append isSearchSpace ' ') out := by
  induction h generalizing g out with
  | nil => rfl
  | char c h ih =>
    refine ih hagrees (hout.append c) ?_
    have hglued := glued_foldl isSearchSpace_space hout [c]
    rwa [List.foldl_cons, List.foldl_nil, glued, glued] at hglued
  | kept hparts => exact absurd hagrees.1.1 hparts
  | @cut gap s trailing run ps hparts hgap hone htrailing h ih =>
    obtain ⟨⟨-, hcase⟩, hrest⟩ := hagrees
    have hsame : (gap ++ (trailing ++ [' '])).foldl (append isSearchSpace ' ') out =
        (trailing ++ [' ']).foldl (append isSearchSpace ' ') out := by
      rw [List.foldl_append]
      rcases hcase with hle | hnil | hword
      · rw [hone.mpr hle]
        rfl
      · rw [hnil, List.nil_append, ← List.foldl_append]
        exact foldl_append_spaces isSearchSpace_space hout
          (fun c hc => by
            rcases List.mem_append.mp hc with hmem | hlast
            · exact hgap c hmem
            · rw [List.mem_singleton.mp hlast]
              exact isSearchSpace_space) (by simp)
      · rw [foldl_append_of_not_glued isSearchSpace_space hout (hg.trans hword) hgap]
    have hglued : glued isSearchSpace false
        ((trailing ++ [' ']).foldl (append isSearchSpace ' ') out) = false := by
      rw [glued_foldl isSearchSpace_space hout, glued_append, glued, glued, isSearchSpace_space]
      rfl
    have hleft : gap ++ (trailing ++ ' ' :: s) = gap ++ (trailing ++ [' ']) ++ s := by simp
    have hright : (Piece.citation run trailing :: ps).flatMap Piece.searched =
        (trailing ++ [' ']) ++ ps.flatMap Piece.searched := rfl
    rw [hleft, hright, @List.foldl_append _ _ _ _ (gap ++ (trailing ++ [' '])),
      @List.foldl_append _ _ _ _ (trailing ++ [' ']), hsame]
    exact ih hrest (hout.foldl _) hglued

/-- What the two texts differ in: the backend keeps more brackets, or has fewer joints, unless they
agree. -/
theorem Compare.agrees (h : Compare u sourceIds s ps) :
    (ps.flatMap Piece.searched).count '[' ≤ s.count '[' ∧
      (s.count '[' = (ps.flatMap Piece.searched).count '[' →
        joints isSearchSpace g s ≤ joints isSearchSpace g (ps.flatMap Piece.searched) ∧
          (joints isSearchSpace g s = joints isSearchSpace g (ps.flatMap Piece.searched) →
            Agrees u sourceIds g ps)) := by
  have hbracket : ∀ trailing : List Char, (∀ c ∈ trailing, isSentenceEnd c = true) →
      ∀ t : List Char, (trailing ++ ' ' :: t).count '[' = t.count '[' := by
    intro trailing htrailing t
    have hzero : trailing.count '[' = 0 :=
      List.count_eq_zero.mpr fun hmem => absurd (htrailing '[' hmem) (by decide)
    rw [List.count_append, hzero, Nat.zero_add, List.count_cons_of_ne (by decide)]
  induction h generalizing g with
  | nil => exact ⟨le_rfl, fun _ => ⟨le_rfl, fun _ => trivial⟩⟩
  | @char c s ps h ih =>
    obtain ⟨hcount, hjoints⟩ := @ih (!isSearchSpace c)
    rw [List.flatMap_cons, Piece.searched, List.singleton_append, List.count_cons, List.count_cons,
      joints, joints]
    refine ⟨Nat.add_le_add_right hcount _, fun heq => ?_⟩
    obtain ⟨hle, hagrees⟩ := hjoints (Nat.add_right_cancel heq)
    exact ⟨Nat.add_le_add_left hle _, fun heq => hagrees (Nat.add_left_cancel heq)⟩
  | @kept kept s trailing run ps hparts hkept htrailing h ih =>
    have hpositive := List.count_pos_iff.mpr hkept
    have hcount := (@ih false).1
    rw [searched_citation, hbracket trailing htrailing, List.count_append]
    exact ⟨by omega, fun heq => by omega⟩
  | @cut gap s trailing run ps hparts hgap hone htrailing h ih =>
    obtain ⟨hcount, hjoints⟩ := @ih false
    have hgapBracket : gap.count '[' = 0 := by
      refine List.count_eq_zero.mpr fun hmem => ?_
      exact absurd (hgap '[' hmem) (by decide)
    rw [searched_citation, hbracket trailing htrailing, List.count_append,
      hbracket trailing htrailing, hgapBracket, Nat.zero_add]
    refine ⟨hcount, fun heq => ?_⟩
    obtain ⟨hle, hagrees⟩ := hjoints heq
    rw [joints_append, joints_spaces hgap, joints_trailing, joints_trailing, glued_spaces hgap,
      Nat.zero_add]
    -- only behind a symbol does the gap take a joint away
    by_cases hfree : gap = [] ∨ trailing = [] ∨ g = false
    · have hsame : joints isSearchSpace (g && gap.isEmpty) trailing =
          joints isSearchSpace g trailing := by
        rcases hfree with rfl | rfl | rfl
        · simp
        · rfl
        · rfl
      rw [hsame]
      refine ⟨by omega, fun heq => ⟨⟨hparts, ?_⟩, hagrees (by omega)⟩⟩
      exact hfree.imp_left hone.mp
    · push Not at hfree
      obtain ⟨hgapNe, htrailingNe, hword⟩ := hfree
      have hempty : gap.isEmpty = false := by simpa using hgapNe
      have htrue : g = true := by simpa using hword
      have hmore : joints isSearchSpace true trailing =
        joints isSearchSpace false trailing + 1 := by
        have hhead : ∀ c ∈ trailing.head?, isSearchSpace c = false := fun c hc =>
          not_isSearchSpace_of_isSentenceEnd (htrailing c (List.mem_of_mem_head? hc))
        rw [joints_true hhead, if_neg htrailingNe]
      rw [hempty, htrue, Bool.and_false, hmore]
      exact ⟨by omega, fun heq => by omega⟩

/-- **Comparison.** Texts that are the same with their white space collapsed agree. -/
theorem Compare.agrees_of_collapse_eq (h : Compare u sourceIds s ps)
    (heq : collapse isSearchSpace ' ' s =
      collapse isSearchSpace ' ' (ps.flatMap Piece.searched)) : Agrees u sourceIds false ps := by
  have hcount : ∀ t, (collapse isSearchSpace ' ' t).count '[' = t.count '[' := by
    intro t
    have hfilter : ∀ l : List Char, (l.filter fun c => !isSearchSpace c).count '[' = l.count '[' :=
      fun l => List.count_filter (by decide)
    rw [← hfilter, filter_collapse isSearchSpace_space, hfilter]
  have hjoints := joints_collapse isSearchSpace_space s
  rw [heq, joints_collapse isSearchSpace_space] at hjoints
  have hbrackets := hcount s
  rw [heq, hcount] at hbrackets
  exact ((@Compare.agrees u sourceIds s ps false h).2 hbrackets.symm).2 hjoints.symm

/-! ### Where runs start -/

theorem DecimalDigits.of_isDigit (h : DecimalDigits u) {c : Char} (hc : c.isDigit = true) :
    u.decimal c = some (c.toNat - '0'.toNat) := by
  have hle : c.toNat < 128 := by
    have hrange : 48 ≤ c.toNat ∧ c.toNat ≤ 57 := by
      simpa [Char.isDigit, UInt32.le_iff_toNat_le] using hc
    omega
  rw [h.ascii c hle, UnicodeData.ascii]
  exact if_pos hc

/-- A run that both read has the same value for both. -/
theorem DecimalDigits.intValue_eq (h : DecimalDigits u) {digits : List Char} {n : ℕ}
    (hdigits : ∀ c ∈ digits, c.isDigit = true) (hn : intValue u digits = some n) :
    decimalValue digits = n := by
  have hfold : ∀ (digits : List Char) (start : ℕ), (∀ c ∈ digits, c.isDigit = true) →
      digits.foldl (fun n d => 10 * n + (u.decimal d).getD 0) start =
        digits.foldl (fun n d => 10 * n + (d.toNat - '0'.toNat)) start := by
    intro digits
    induction digits with
    | nil => exact fun _ _ => rfl
    | cons d digits ih =>
      intro start hdigits
      rw [List.foldl_cons, List.foldl_cons, h.of_isDigit (hdigits d List.mem_cons_self)]
      exact ih _ fun c hc => hdigits c (List.mem_cons_of_mem _ hc)
  rw [intValue] at hn
  split_ifs at hn
  rw [hfold digits 0 hdigits] at hn
  exact Option.some.inj hn

theorem backendCites_iff {run : List Marker} :
    backendCites u sourceIds run = true ↔ citesAny u sourceIds run = some true := by
  rw [backendCites, decide_eq_true_iff]

theorem exists_of_citesAny {run : List Marker} (h : citesAny u sourceIds run = some true) :
    ∃ m ∈ run, ∃ n ∈ sourceIds, intValue u m.digits = some n := by
  induction run with
  | nil => simp [citesAny] at h
  | cons m run ih =>
    rw [citesAny] at h
    split at h
    · cases h
    · rename_i n hn
      split_ifs at h with hmem
      · exact ⟨m, List.mem_cons_self, n, hmem, hn⟩
      · obtain ⟨m', hm', n', hn', hvalue⟩ := ih h
        exact ⟨m', List.mem_cons_of_mem _ hm', n', hn', hvalue⟩

/-- A longer run is left out as well. -/
theorem backendCites_append {run more : List Marker} (h : backendCites u sourceIds run = true) :
    backendCites u sourceIds (run ++ more) = true := by
  rw [backendCites_iff] at h ⊢
  induction run with
  | nil => simp [citesAny] at h
  | cons m run ih =>
    rw [List.cons_append, citesAny]
    rw [citesAny] at h
    split at h
    · cases h
    · split_ifs at h with hmem
      · exact if_pos hmem
      · rw [if_neg hmem]
        exact ih h

/-- White space does not matter to the ids of a run. -/
theorem backendCites_congr {m m' : Marker} {run : List Marker} (h : m.digits = m'.digits) :
    backendCites u sourceIds (m :: run) = backendCites u sourceIds (m' :: run) := by
  rw [backendCites, backendCites, citesAny, citesAny, h]

/-- A common run that the backend leaves out is left out by the browser. -/
theorem DecimalDigits.browserCites (h : DecimalDigits u) {run more : List Marker}
    (hcommon : Common run) (hcites : backendCites u sourceIds run = true) :
    browserCites sourceIds (run ++ more) = true := by
  obtain ⟨m, hm, n, hn, hvalue⟩ := exists_of_citesAny (backendCites_iff.mp hcites)
  refine decide_eq_true fun hnil => ?_
  refine citeIds_eq_nil_iff.mp hnil m (List.mem_append_left _ hm) ?_
  rw [h.intValue_eq (hcommon m hm).1 hvalue]
  exact List.mem_map_of_mem hn

theorem Common.readable {run : List Marker} (h : Common run)
    (hread : Readable (pythonClasses u) run) : Readable javascriptClasses run := fun m hm =>
  ⟨(h m hm).2, (hread m hm).2.1, (h m hm).1⟩

/-- A marker with its white space in front of it, and one without. -/
def headText (m : Marker) (more : List Marker) (rest : List Char) : List Char :=
  runText (⟨[], m.digits⟩ :: more) ++ rest

theorem runText_append_eq (m : Marker) (more : List Marker) (rest : List Char) :
    runText (m :: more) ++ rest = m.spaces ++ headText m more rest := by
  simp [headText, runText_cons, Marker.text]

theorem readable_head {classes : RegexClasses} {m : Marker} {more : List Marker}
    (h : Readable classes (m :: more)) : Readable classes (⟨[], m.digits⟩ :: more) := by
  intro m' hm'
  rcases List.mem_cons.mp hm' with rfl | hmem
  · exact ⟨nofun, (h m List.mem_cons_self).2⟩
  · exact h m' (List.mem_cons_of_mem _ hmem)

/-- The first part of a run, and the others. -/
theorem backendParts_cons (m : Marker) (more : List Marker) :
    backendParts (m :: more) =
      (m :: more.takeWhile Joined) :: backendParts (more.dropWhile Joined) := by
  induction more generalizing m with
  | nil => rfl
  | cons m' more ih =>
    have hrest := ih m'
    rw [backendParts, hrest]
    by_cases hjoined : Joined m' = true
    · rw [List.takeWhile_cons_of_pos hjoined, List.dropWhile_cons_of_pos hjoined]
      simp [hjoined]
    · rw [List.takeWhile_cons_of_neg hjoined, List.dropWhile_cons_of_neg hjoined, hrest]
      simp [hjoined]

theorem backendParts_ne_nil (m : Marker) (more : List Marker) : backendParts (m :: more) ≠ [] := by
  rw [backendParts_cons]
  exact List.cons_ne_nil _ _

/-- The pieces of the backend at the start of a marker: the run that it leaves out there, or the
marker as it is. -/
theorem backend_marker (h : DecimalDigits u) {m : Marker} {more : List Marker} {rest : List Char}
    (hread : Readable javascriptClasses (m :: more)) (hstops : Stops javascriptClasses rest)
    (hcommon : ∀ run trailing, .citation run trailing ∈
      pieces (pythonClasses u) (backendCites u sourceIds) 0 (headText m more rest) → Common run) :
    (backendCites u sourceIds (m :: more.takeWhile Joined) = true ∧
      pieces (pythonClasses u) (backendCites u sourceIds) 0 (headText m more rest) =
        .citation (⟨[], m.digits⟩ :: more.takeWhile Joined)
            ((runText (more.dropWhile Joined) ++ rest).takeWhile isSentenceEnd) ::
          pieces (pythonClasses u) (backendCites u sourceIds) 0
            ((runText (more.dropWhile Joined) ++ rest).dropWhile isSentenceEnd)) ∨
    backendCites u sourceIds (m :: more.takeWhile Joined) = false ∧
      pieces (pythonClasses u) (backendCites u sourceIds) 0 (headText m more rest) =
        (Marker.text ⟨[], m.digits⟩).map .char ++
          pieces (pythonClasses u) (backendCites u sourceIds) 0 (runText more ++ rest) := by
  have hlawful := h.lawful
  have hdecimal : ∀ m' ∈ m :: more, m'.digits ≠ [] ∧
      ∀ c ∈ m'.digits, (pythonClasses u).isDigit c = true := by
    intro m' hm'
    obtain ⟨-, hne, hdigits⟩ := hread m' hm'
    refine ⟨hne, fun c hc => ?_⟩
    show (u.decimal c).isSome = true
    rw [h.of_isDigit (hdigits c hc)]
    rfl
  -- the backend reads the first part
  have hfirst : Readable (pythonClasses u) (⟨[], m.digits⟩ :: more.takeWhile Joined) := by
    intro m' hm'
    rcases List.mem_cons.mp hm' with rfl | hmem
    · exact ⟨nofun, hdecimal m List.mem_cons_self⟩
    · have hjoined := List.mem_takeWhile_imp hmem
      exact ⟨List.all_eq_true.mp hjoined, hdecimal m'
        (List.mem_cons_of_mem _ (List.takeWhile_subset Joined hmem))⟩
  have hsplit : headText m more rest = runText (⟨[], m.digits⟩ :: more.takeWhile Joined) ++
      (runText (more.dropWhile Joined) ++ rest) := by
    rw [headText, ← List.append_assoc, ← runText_append, List.cons_append,
      List.takeWhile_append_dropWhile]
  obtain ⟨c, text, htext⟩ : ∃ c text, headText m more rest = c :: text := by
    rw [headText, runText_cons, Marker.text]
    exact ⟨'[', _, rfl⟩
  have hsame : backendCites u sourceIds (m :: more.takeWhile Joined) =
      backendCites u sourceIds (⟨[], m.digits⟩ :: more.takeWhile Joined) := backendCites_congr rfl
  obtain ⟨extra, after, hrun, hafter⟩ : ∃ extra after,
      runAt (pythonClasses u) (headText m more rest) =
        some (⟨[], m.digits⟩ :: more.takeWhile Joined ++ extra, after) ∧
      runText (more.dropWhile Joined) ++ rest = runText extra ++ after := by
    rw [hsplit]
    exact exists_runAt hlawful hfirst
  rw [htext] at hrun
  by_cases hcites : backendCites u sourceIds
      (⟨[], m.digits⟩ :: more.takeWhile Joined ++ extra) = true
  · -- a run that is left out is common, so that the browser reads it, and it is the first part
    have hpieces := pieces_run hlawful hrun hcites
    have hmem : .citation (⟨[], m.digits⟩ :: more.takeWhile Joined ++ extra)
        (after.takeWhile isSentenceEnd) ∈
          pieces (pythonClasses u) (backendCites u sourceIds) 0 (headText m more rest) := by
      rw [htext, hpieces]
      exact List.mem_cons_self
    obtain ⟨-, hreadPython, -, hwhole⟩ := (runAt_eq_some_iff hlawful).mp hrun
    have hreadBoth := (hcommon _ _ hmem).readable hreadPython
    rw [← htext, headText] at hwhole
    obtain ⟨others, hothers, -⟩ := prefix_of_stops lawful_javascriptClasses hreadBoth
      (readable_head hread) hstops hwhole.symm
    have hmore : more.dropWhile Joined = extra ++ others := by
      have hsame : more = more.takeWhile Joined ++ (extra ++ others) := by
        rw [List.cons_append, List.cons_append, List.append_assoc] at hothers
        exact (List.cons.inj hothers).2
      have hself := List.takeWhile_append_dropWhile (p := Joined) (l := more)
      exact List.append_cancel_left (hself.trans hsame)
    have hnil : extra = [] := by
      cases extra with
      | nil => rfl
      | cons x =>
        have hjoined : Joined x = true := by
          refine List.all_eq_true.mpr (hreadPython x ?_).1
          simp
        have hhead := List.head?_dropWhile_not Joined more
        rw [hmore, List.cons_append, List.head?_cons] at hhead
        simp [hjoined] at hhead
    rw [hnil, List.append_nil] at hcites hpieces
    rw [hnil] at hafter
    refine Or.inl ⟨hsame.trans hcites, ?_⟩
    rw [htext, hpieces, hafter]
    rfl
  · refine Or.inr ⟨?_, ?_⟩
    · by_contra htrue
      refine hcites (backendCites_append ?_)
      rw [← hsame]
      simpa using htrue
    · have htexts : headText m more rest = Marker.text ⟨[], m.digits⟩ ++
        (runText more ++ rest) := by
        rw [headText, runText_cons, List.append_assoc]
      rw [htexts]
      refine pieces_marker hlawful (fun m' hm' => ?_) fun run rest' hfound => ?_
      · exact hfirst m' (by simp_all)
      · have hbracket : '[' :: (m.digits ++ ']' :: (runText more ++ rest)) = c :: text := by
          rw [← htext, htexts]
          simp [Marker.text]
        rw [hbracket, hrun] at hfound
        obtain ⟨rfl, -⟩ := Prod.mk.inj (Option.some.inj hfound)
        simpa using hcites

/-- Every part of a run is left out by the backend. -/
def AllParts (u : UnicodeData) (sourceIds : List ℕ) (run : List Marker) : Prop :=
  ∀ part ∈ backendParts run, backendCites u sourceIds part = true

theorem isSearchSpace_ne_open {s : List Char} (h : ∀ c ∈ s, isSearchSpace c = true) :
    ∀ c ∈ s, c ≠ '[' := by
  rintro c hc rfl
  exact absurd (h '[' hc) (by decide)

/-- What the backend makes of a run of the browser, up to the punctuation behind it. -/
structure RunText (u : UnicodeData) (sourceIds : List ℕ) (run : List Marker)
    (trailing replaced : List Char) : Prop where
  kept : ¬AllParts u sourceIds run → '[' ∈ replaced
  cut : AllParts u sourceIds run → ∃ gap, replaced = gap ++ (trailing ++ [' ']) ∧
    (∀ c ∈ gap, isSearchSpace c = true) ∧ (gap = [] ↔ (backendParts run).length ≤ 1)

/-- **Step.** Marker by marker, or part by part, through a run of the browser. -/
theorem backend_run (h : DecimalDigits u) (n : ℕ) (m : Marker) (more : List Marker)
    (rest : List Char) (hn : more.length < n) (hread : Readable javascriptClasses (m :: more))
    (hstops : Stops javascriptClasses rest)
    (hcommon : ∀ run trailing, .citation run trailing ∈
      pieces (pythonClasses u) (backendCites u sourceIds) 0 (headText m more rest) → Common run) :
    ∃ before, pieces (pythonClasses u) (backendCites u sourceIds) 0 (headText m more rest) =
        before ++ pieces (pythonClasses u) (backendCites u sourceIds) 0
          (rest.dropWhile isSentenceEnd) ∧
      RunText u sourceIds (m :: more) (rest.takeWhile isSentenceEnd)
        (before.flatMap Piece.searched) := by
  have hlawful := h.lawful
  induction n generalizing m more with
  | zero => exact absurd hn (Nat.not_lt_zero _)
  | succ n ih =>
    -- the markers from `m'` on, behind their white space
    have hnext : ∀ m' more', more'.length < n → (∀ x ∈ m' :: more', x ∈ more) →
        (∀ run trailing, .citation run trailing ∈
          pieces (pythonClasses u) (backendCites u sourceIds) 0 (runText (m' :: more') ++ rest) →
            Common run) →
        ∃ before, pieces (pythonClasses u) (backendCites u sourceIds) 0
              (runText (m' :: more') ++ rest) =
            m'.spaces.map .char ++ before ++
              pieces (pythonClasses u) (backendCites u sourceIds) 0
                (rest.dropWhile isSentenceEnd) ∧
          RunText u sourceIds (m' :: more') (rest.takeWhile isSentenceEnd)
            (before.flatMap Piece.searched) := by
      intro m' more' hlength hsub hcommon'
      have hread' : Readable javascriptClasses (m' :: more') := fun x hx =>
        hread x (List.mem_cons_of_mem _ (hsub x hx))
      have hspaces := (hread' m' List.mem_cons_self).1
      have hsplit : pieces (pythonClasses u) (backendCites u sourceIds) 0
          (runText (m' :: more') ++ rest) = m'.spaces.map .char ++
            pieces (pythonClasses u) (backendCites u sourceIds) 0 (headText m' more' rest) := by
        rw [runText_append_eq, pieces_append hlawful (isSearchSpace_ne_open hspaces)]
      rw [hsplit] at hcommon'
      obtain ⟨before, hbefore, htext⟩ := ih m' more' hlength hread' fun run trailing hmem =>
        hcommon' run trailing (List.mem_append_right _ hmem)
      exact ⟨before, by rw [hsplit, hbefore, List.append_assoc], htext⟩
    rcases backend_marker h hread hstops hcommon with ⟨hcites, hpieces⟩ | ⟨hcites, hpieces⟩
    · cases hdrop : more.dropWhile Joined with
      | nil =>
        rw [hdrop] at hpieces
        have hparts : backendParts (m :: more) = [m :: more.takeWhile Joined] := by
          rw [backendParts_cons, hdrop]
          rfl
        refine ⟨[_], hpieces, fun hnot => absurd (fun part hpart => ?_) hnot,
          fun _ => ⟨[], List.append_nil _, nofun, ?_⟩⟩
        · rw [hparts] at hpart
          rw [List.mem_singleton.mp hpart]
          exact hcites
        · simp [hparts]
      | cons m' more' =>
        have hsub : ∀ x ∈ m' :: more', x ∈ more := fun x hx =>
          (List.dropWhile_suffix Joined).subset (hdrop ▸ hx)
        have hlength : more'.length < n := by
          have hle := (List.dropWhile_suffix Joined (l := more)).length_le
          rw [hdrop, List.length_cons] at hle
          omega
        have hspaces := (hread m' (List.mem_cons_of_mem _ (hsub m' List.mem_cons_self))).1
        -- the white space of a new part is not empty, and no punctuation
        have hnone : ∃ c spaces, m'.spaces = c :: spaces := by
          have hnot := List.head?_dropWhile_not Joined more
          rw [hdrop, List.head?_cons] at hnot
          cases hspaces' : m'.spaces with
          | nil => simp [Joined, hspaces'] at hnot
          | cons c spaces => exact ⟨c, spaces, rfl⟩
        obtain ⟨c, spaces, hcons⟩ := hnone
        have hc : isSentenceEnd c = false := by
          by_contra htrue
          have hspace : isSearchSpace c = true := hspaces c (by simp [hcons])
          rw [not_isSearchSpace_of_isSentenceEnd (by simpa using htrue)] at hspace
          cases hspace
        have hrest : ∃ t, runText (m' :: more') ++ rest = c :: t := by
          rw [runText_append_eq, hcons]
          exact ⟨_, rfl⟩
        obtain ⟨t, ht⟩ := hrest
        rw [hdrop, ht, List.takeWhile_cons_of_neg (by simp [hc]),
          List.dropWhile_cons_of_neg (by simp [hc]), ← ht] at hpieces
        obtain ⟨before, hbefore, htext⟩ := hnext m' more' hlength hsub fun run trailing hmem =>
          hcommon run trailing (by rw [hpieces]; exact List.mem_cons_of_mem _ hmem)
        have hparts : backendParts (m :: more) =
            (m :: more.takeWhile Joined) :: backendParts (m' :: more') := by
          rw [backendParts_cons, hdrop]
        have hall : AllParts u sourceIds (m :: more) ↔ AllParts u sourceIds (m' :: more') := by
          rw [AllParts, hparts, List.forall_mem_cons, and_iff_right hcites, AllParts]
        have hsearched : (Piece.citation (⟨[], m.digits⟩ :: more.takeWhile Joined) [] ::
            (m'.spaces.map .char ++ before)).flatMap Piece.searched =
              ' ' :: (m'.spaces ++ before.flatMap Piece.searched) := by
          rw [searched_citation, List.flatMap_append, searched_chars]
          rfl
        refine ⟨_ :: (m'.spaces.map .char ++ before), by rw [hpieces, hbefore]; rfl, ?_, ?_⟩
        · intro hnot
          rw [hsearched]
          have hkept := htext.kept (mt hall.mpr hnot)
          exact List.mem_cons_of_mem _ (List.mem_append_right _ hkept)
        · intro hparts'
          obtain ⟨gap, hgap, hspace, -⟩ := htext.cut (hall.mp hparts')
          refine ⟨' ' :: (m'.spaces ++ gap), ?_, fun d hd => ?_, ?_⟩
          · rw [hsearched, hgap]
            simp
          · rcases List.mem_cons.mp hd with rfl | hmem
            · exact isSearchSpace_space
            · exact (List.mem_append.mp hmem).elim (hspaces d) (hspace d)
          · have hpositive : 0 < (backendParts (m' :: more')).length :=
              List.length_pos_iff.mpr (backendParts_ne_nil m' more')
            rw [hparts, List.length_cons]
            refine iff_of_false (List.cons_ne_nil _ _) (by omega)
    · have hall : ¬AllParts u sourceIds (m :: more) := by
        intro hparts
        rw [AllParts, backendParts_cons, List.forall_mem_cons, hcites] at hparts
        exact absurd hparts.1 Bool.false_ne_true
      have hopen : '[' ∈ Marker.text ⟨[], m.digits⟩ := List.mem_cons_self
      cases more with
      | nil =>
        have hrest : pieces (pythonClasses u) (backendCites u sourceIds) 0 rest =
            (rest.takeWhile isSentenceEnd).map .char ++
              pieces (pythonClasses u) (backendCites u sourceIds) 0
                (rest.dropWhile isSentenceEnd) := by
          rw [← pieces_append hlawful isSentenceEnd_ne_open, List.takeWhile_append_dropWhile]
        have hnil : runText [] ++ rest = rest := rfl
        rw [hnil, hrest, ← List.append_assoc] at hpieces
        refine ⟨_, hpieces, fun _ => ?_, fun hparts => absurd hparts hall⟩
        rw [List.flatMap_append, searched_chars]
        exact List.mem_append_left _ hopen
      | cons m' more' =>
        have hlength : more'.length < n := by
          rw [List.length_cons] at hn
          omega
        obtain ⟨before, hbefore, -⟩ := hnext m' more' hlength (fun _ hx => hx)
          fun run trailing hmem =>
            hcommon run trailing (by rw [hpieces]; exact List.mem_append_right _ hmem)
        rw [hbefore, ← List.append_assoc] at hpieces
        refine ⟨_, hpieces, fun _ => ?_, fun hparts => absurd hparts hall⟩
        rw [List.flatMap_append, searched_chars]
        exact List.mem_append_left _ hopen

/-- **Comparison.** The two texts differ in the runs of the browser, when all runs that the backend
leaves out are common. -/
theorem compare_pieces (h : DecimalDigits u) (text : List Char)
    (hcommon : ∀ run trailing, .citation run trailing ∈
      pieces (pythonClasses u) (backendCites u sourceIds) 0 text → Common run) :
    Compare u sourceIds
      ((pieces (pythonClasses u) (backendCites u sourceIds) 0 text).flatMap Piece.searched)
      (pieces javascriptClasses (browserCites sourceIds) 0 text) := by
  have hlawful := lawful_javascriptClasses
  let P (text : List Char) : Prop :=
    (∀ run trailing, .citation run trailing ∈
      pieces (pythonClasses u) (backendCites u sourceIds) 0 text → Common run) →
    Compare u sourceIds
      ((pieces (pythonClasses u) (backendCites u sourceIds) 0 text).flatMap Piece.searched)
      (pieces javascriptClasses (browserCites sourceIds) 0 text)
  have hall : P text := by
    refine @pieces_induction javascriptClasses (browserCites sourceIds) hlawful P
      (fun _ => .nil) ?_ ?_ text
    · intro c text hnone ih hcommon
      -- a run that the backend leaves out here would start a run of the browser
      have hchar : pieces (pythonClasses u) (backendCites u sourceIds) 0 (c :: text) =
          .char c :: pieces (pythonClasses u) (backendCites u sourceIds) 0 text := by
        refine pieces_char fun run rest hrun => ?_
        by_contra hcites
        have hcites : backendCites u sourceIds run = true := by simpa using hcites
        have hmem := hcommon run (rest.takeWhile isSentenceEnd) (by
          rw [pieces_run h.lawful hrun hcites]
          exact List.mem_cons_self)
        obtain ⟨⟨digits, more, rfl⟩, hread, -, htext⟩ := (runAt_eq_some_iff h.lawful).mp hrun
        obtain ⟨extra, rest', hfound, -⟩ := exists_runAt hlawful (hmem.readable hread)
        rw [← htext] at hfound
        have hbrowser := hnone _ _ hfound
        rw [h.browserCites hmem hcites] at hbrowser
        cases hbrowser
      rw [hchar] at hcommon
      rw [hchar, pieces_char hnone]
      exact .char c (ih fun run trailing hmem =>
        hcommon run trailing (List.mem_cons_of_mem _ hmem))
    · intro c text run rest hrun hcited ih hcommon
      obtain ⟨⟨digits, more, rfl⟩, hread, hstops, htext⟩ := (runAt_eq_some_iff hlawful).mp hrun
      have hhead : c :: text = headText ⟨[], digits⟩ more rest := htext
      rw [hhead] at hcommon
      obtain ⟨before, hbefore, hreplaced⟩ := backend_run h (more.length + 1) ⟨[], digits⟩ more rest
        (Nat.lt_succ_self _) hread hstops hcommon
      rw [hbefore] at hcommon
      have htail := ih fun run trailing hmem => hcommon run trailing (List.mem_append_right _ hmem)
      rw [pieces_run hlawful hrun hcited, hhead, hbefore, List.flatMap_append]
      have htrailing : ∀ c ∈ rest.takeWhile isSentenceEnd, isSentenceEnd c = true :=
        fun c hc => List.mem_takeWhile_imp hc
      by_cases hparts : AllParts u sourceIds (⟨[], digits⟩ :: more)
      · obtain ⟨gap, hgap, hspace, hone⟩ := hreplaced.cut hparts
        rw [hgap, List.append_assoc, List.append_assoc]
        exact .cut hparts hspace hone htrailing htail
      · exact .kept hparts (hreplaced.kept hparts) htrailing htail
  exact hall hcommon

/-! ### The runs that the backend leaves out -/

/-- A character that only the backend takes for a digit, or for white space. -/
def isForeign (u : UnicodeData) (c : Char) : Bool :=
  ((u.decimal c).isSome && !c.isDigit) || (Text.isSpace c && !isSearchSpace c)

theorem DecimalDigits.not_space_of_isForeign (h : DecimalDigits u) {c : Char}
    (hc : isForeign u c = true) : isSearchSpace c = false := by
  rw [isForeign, Bool.or_eq_true, Bool.and_eq_true, Bool.and_eq_true] at hc
  rcases hc with ⟨hdecimal, -⟩ | ⟨-, hspace⟩
  · exact h.not_space c hdecimal
  · simpa using hspace

/-- What is left out is missing in the text that is searched. -/
theorem countP_searched {f : Char → Bool} (hf : f ' ' = false) (ps : List Piece) :
    (ps.flatMap Piece.written).countP f =
      (ps.flatMap Piece.searched).countP f +
        ((ps.filterMap Piece.run?).flatMap runText).countP f := by
  induction ps with
  | nil => rfl
  | cons piece ps ih =>
    cases piece with
    | char c =>
      have hrun : (Piece.char c :: ps).filterMap Piece.run? = ps.filterMap Piece.run? := rfl
      rw [List.flatMap_cons, List.flatMap_cons, hrun, List.countP_append, List.countP_append, ih,
        Nat.add_assoc]
      rfl
    | citation run trailing =>
      have hrun : (Piece.citation run trailing :: ps).filterMap Piece.run? =
          run :: ps.filterMap Piece.run? := rfl
      have hspace : [' '].countP f = 0 := by simp [hf]
      rw [hrun, List.flatMap_cons, List.flatMap_cons, List.flatMap_cons, Piece.written,
        Piece.searched, List.countP_append, List.countP_append, List.countP_append,
        List.countP_append, List.countP_append, ih, hspace]
      omega

/-- The browser leaves out nothing foreign. -/
theorem DecimalDigits.not_isForeign (h : DecimalDigits u) {run : List Marker}
    (hread : Readable javascriptClasses run) : (runText run).countP (isForeign u) = 0 := by
  refine List.countP_eq_zero.mpr fun c hc => ?_
  obtain ⟨m, hm, hmem⟩ := List.mem_flatMap.mp hc
  obtain ⟨hspaces, -, hdigits⟩ := hread m hm
  have hcase : isSearchSpace c = true ∨ c.isDigit = true ∨ c = '[' ∨ c = ']' := by
    rw [Marker.text, List.mem_append, List.mem_append, List.mem_cons, List.mem_singleton] at hmem
    rcases hmem with (hspace | hopen | hdigit) | hclose
    · exact Or.inl (hspaces c hspace)
    · exact Or.inr (Or.inr (Or.inl hopen))
    · exact Or.inr (Or.inl (hdigits c hdigit))
    · exact Or.inr (Or.inr (Or.inr hclose))
  intro hforeign
  rcases hcase with hspace | hdigit | rfl | rfl
  · rw [h.not_space_of_isForeign hforeign] at hspace
    cases hspace
  · have hrange : 48 ≤ c.toNat ∧ c.toNat ≤ 57 := by
      simpa [Char.isDigit, UInt32.le_iff_toNat_le] using hdigit
    have hspace : Text.isSpace c = false := by
      simp only [Text.isSpace, decide_eq_false_iff_not]
      omega
    simp [isForeign, hdigit, hspace] at hforeign
  · have hopen : (u.decimal '[').isSome = false := h.lawful.open_not_digit
    have hspace : Text.isSpace '[' = false := by decide
    simp [isForeign, hopen, hspace] at hforeign
  · have hclose : (u.decimal ']').isSome = false := h.lawful.close_not_digit
    have hspace : Text.isSpace ']' = false := by decide
    simp [isForeign, hclose, hspace] at hforeign

/-- A run without foreign characters is common. -/
theorem common_of_countP {run : List Marker} (hread : Readable (pythonClasses u) run)
    (hcount : (runText run).countP (isForeign u) = 0) : Common run := by
  intro m hm
  have hnot : ∀ c ∈ m.text, isForeign u c = false := fun c hc => by
    have hzero := List.countP_eq_zero.mp hcount c (List.mem_flatMap.mpr ⟨m, hm, hc⟩)
    simpa using hzero
  obtain ⟨hspaces, -, hdigits⟩ := hread m hm
  refine ⟨fun c hc => ?_, fun c hc => ?_⟩
  · have hforeign := hnot c (by simp [Marker.text, hc])
    have hdecimal : (u.decimal c).isSome = true := hdigits c hc
    by_contra hdigit
    simp [isForeign, hdecimal, hdigit] at hforeign
  · have hforeign := hnot c (by simp [Marker.text, hc])
    have hspace : Text.isSpace c = true := hspaces c hc
    by_contra hsearch
    simp [isForeign, hspace, hsearch] at hforeign

/-- The runs that are left out were matched. -/
theorem readable_of_mem_pieces {classes : RegexClasses} {cited : List Marker → Bool}
    (hlawful : classes.Lawful) (text : List Char) :
    ∀ run trailing, .citation run trailing ∈ pieces classes cited 0 text →
      Readable classes run := by
  let P (text : List Char) : Prop := ∀ run trailing,
    .citation run trailing ∈ pieces classes cited 0 text → Readable classes run
  have hall : P text := by
    refine @pieces_induction classes cited hlawful P nofun ?_ ?_ text
    · intro c text hnone ih run trailing hmem
      rw [pieces_char hnone] at hmem
      rcases List.mem_cons.mp hmem with heq | hrest
      · cases heq
      · exact ih run trailing hrest
    · intro c text run rest hrun hcited ih run' trailing hmem
      rw [pieces_run hlawful hrun hcited] at hmem
      rcases List.mem_cons.mp hmem with heq | hrest
      · cases heq
        exact ((runAt_eq_some_iff hlawful).mp hrun).2.1
      · exact ih run' trailing hrest
  exact hall

/-- Texts that are the same with their white space collapsed leave out common runs only. -/
theorem common_of_collapse_eq (h : DecimalDigits u) (value : List Char)
    (heq : collapse isSearchSpace ' '
        ((pieces (pythonClasses u) (backendCites u sourceIds) 0 value).flatMap Piece.searched) =
      collapse isSearchSpace ' '
        ((pieces javascriptClasses (browserCites sourceIds) 0 value).flatMap Piece.searched)) :
    ∀ run trailing, .citation run trailing ∈
      pieces (pythonClasses u) (backendCites u sourceIds) 0 value → Common run := by
  have hlawful := h.lawful
  have hspace : isForeign u ' ' = false := by
    by_contra hforeign
    have hnot := h.not_space_of_isForeign (by simpa using hforeign)
    rw [isSearchSpace_space] at hnot
    cases hnot
  have hkeep : ∀ t, (collapse isSearchSpace ' ' t).countP (isForeign u) =
      t.countP (isForeign u) := by
    intro t
    have hfilter : ∀ l : List Char,
        (l.filter fun c => !isSearchSpace c).countP (isForeign u) = l.countP (isForeign u) := by
      intro l
      rw [List.countP_filter]
      refine List.countP_congr fun c _ => ?_
      rw [Bool.and_eq_true, Bool.not_eq_true']
      exact ⟨And.left, fun hc => ⟨hc, h.not_space_of_isForeign hc⟩⟩
    rw [← hfilter, filter_collapse isSearchSpace_space, hfilter]
  have hbrowser := countP_searched hspace
    (pieces javascriptClasses (browserCites sourceIds) 0 value)
  have hbackend := countP_searched hspace
    (pieces (pythonClasses u) (backendCites u sourceIds) 0 value)
  have hnone : (((pieces javascriptClasses (browserCites sourceIds) 0 value).filterMap
      Piece.run?).flatMap runText).countP (isForeign u) = 0 := by
    refine List.countP_eq_zero.mpr fun c hc => ?_
    obtain ⟨run, hrun, hmem⟩ := List.mem_flatMap.mp hc
    obtain ⟨piece, hpiece, hrun?⟩ := List.mem_filterMap.mp hrun
    cases piece with
    | char => cases hrun?
    | citation =>
      cases hrun?
      have hread := readable_of_mem_pieces lawful_javascriptClasses value _ _ hpiece
      exact List.countP_eq_zero.mp (h.not_isForeign hread) c hmem
  have hcount := hkeep ((pieces (pythonClasses u) (backendCites u sourceIds) 0 value).flatMap
    Piece.searched)
  rw [heq, hkeep] at hcount
  rw [written_pieces lawful_javascriptClasses] at hbrowser
  rw [written_pieces hlawful] at hbackend
  have hzero : (((pieces (pythonClasses u) (backendCites u sourceIds) 0 value).filterMap
      Piece.run?).flatMap runText).countP (isForeign u) = 0 := by
    omega
  intro run trailing hmem
  refine common_of_countP (readable_of_mem_pieces hlawful value _ _ hmem) ?_
  refine List.countP_eq_zero.mpr fun c hc => ?_
  exact List.countP_eq_zero.mp hzero c
    (List.mem_flatMap.mpr ⟨run, List.mem_filterMap.mpr ⟨_, hmem, rfl⟩, hc⟩)

/-! ### Both together -/

/-- The condition on the runs of the browser, read piece by piece. -/
theorem agrees_iff_forall {before ps : List Piece} :
    Agrees u sourceIds (!AtWordStart before) ps ↔
      ∀ middle run trailing after, ps = middle ++ .citation run trailing :: after →
        AllParts u sourceIds run ∧ ((backendParts run).length ≤ 1 ∨ trailing = [] ∨
          AtWordStart (before ++ middle) = true) := by
  -- on the pieces; what stands before one says whether it starts a word
  induction ps generalizing before with
  | nil => simp [Agrees]
  | cons piece ps ih =>
    have hlast : ∀ middle, AtWordStart (before ++ piece :: middle) =
        AtWordStart ((before ++ [piece]) ++ middle) := fun middle => by
      rw [List.append_assoc]
      rfl
    have htail : Agrees u sourceIds (!AtWordStart (before ++ [piece])) ps ↔
        ∀ middle run trailing after, ps = middle ++ .citation run trailing :: after →
          AllParts u sourceIds run ∧ ((backendParts run).length ≤ 1 ∨ trailing = [] ∨
            AtWordStart (before ++ piece :: middle) = true) := by
      rw [ih]
      simp only [hlast]
    cases piece with
    | char c =>
      have hword : AtWordStart (before ++ [.char c]) = isSearchSpace c := by
        rw [AtWordStart, List.getLast?_concat]
      rw [hword] at htail
      rw [Agrees, htail]
      constructor
      · intro hall middle run trailing after hsplit
        cases middle with
        | nil => cases hsplit
        | cons first middle =>
          obtain ⟨rfl, hrest⟩ := List.cons.inj hsplit
          exact hall middle run trailing after hrest
      · intro hall middle run trailing after hsplit
        exact hall (.char c :: middle) run trailing after (by rw [hsplit]; rfl)
    | citation run trailing =>
      have hword : AtWordStart (before ++ [.citation run trailing]) = true := by
        rw [AtWordStart, List.getLast?_concat]
      rw [hword] at htail
      rw [Agrees, Bool.not_eq_false', ← Bool.not_true, htail]
      constructor
      · rintro ⟨hfirst, hall⟩ middle run' trailing' after hsplit
        cases middle with
        | nil =>
          obtain ⟨heq, -⟩ := List.cons.inj hsplit
          cases heq
          rw [List.append_nil]
          exact hfirst
        | cons first middle =>
          obtain ⟨rfl, hrest⟩ := List.cons.inj hsplit
          exact hall middle run' trailing' after hrest
      · intro hall
        refine ⟨?_, fun middle run' trailing' after hsplit => ?_⟩
        · have hfirst := hall [] run trailing ps rfl
          rw [List.append_nil] at hfirst
          exact hfirst
        · exact hall (_ :: middle) run' trailing' after (by rw [hsplit]; rfl)

/-- The search text of a text value is the same on both sides exactly if the backend can read its
markers, leaves out only runs that both read, and leaves out every part of a run that the browser
replaces, without new white space in front of punctuation that it moves. -/
theorem visibleText_eq_browserText_iff (h : DecimalDigits u) (sourceIds : List ℕ)
    (value : List Char) :
    visibleText u sourceIds value = some (browserText sourceIds value) ↔
      Meets u sourceIds value := by
  have hspec := @replaceCitations_spec u sourceIds h.lawful 0 value
  have hbrowser : browserText sourceIds value = collapse isSearchSpace ' '
      ((pieces javascriptClasses (browserCites sourceIds) 0 value).flatMap Piece.searched) := by
    rw [browserText, searched_splitText]
  have hagrees : Agrees u sourceIds false
      (pieces javascriptClasses (browserCites sourceIds) 0 value) ↔
        ∀ before run trailing after,
          pieces javascriptClasses (browserCites sourceIds) 0 value =
            before ++ .citation run trailing :: after →
          AllParts u sourceIds run ∧ ((backendParts run).length ≤ 1 ∨ trailing = [] ∨
            AtWordStart before = true) := @agrees_iff_forall u sourceIds [] _
  rw [hbrowser, visibleText]
  constructor
  · intro heq
    have hreads : ∀ run ∈ runsOf (pythonClasses u) 0 value, citesAny u sourceIds run ≠ none := by
      intro run hrun hnone
      rw [hspec.1 ⟨run, hrun, hnone⟩] at heq
      cases heq
    obtain ⟨hsome, hruns⟩ := hspec.2 hreads
    rw [hsome, Option.map_some, Option.some_inj, buildUserSearchText_eq_collapse] at heq
    have hcommon := common_of_collapse_eq h value heq
    refine ⟨hreads, fun run hrun hcites => ?_, ?_⟩
    · have hmem : run ∈ (pieces (pythonClasses u) (backendCites u sourceIds) 0 value).filterMap
          Piece.run? := by
        rw [hruns]
        exact List.mem_filter.mpr ⟨hrun, hcites⟩
      obtain ⟨piece, hpiece, hrun?⟩ := List.mem_filterMap.mp hmem
      cases piece with
      | char => cases hrun?
      | citation =>
        cases hrun?
        exact hcommon _ _ hpiece
    · exact hagrees.mp ((compare_pieces h value hcommon).agrees_of_collapse_eq heq)
  · rintro ⟨hreads, hcommon, hparts⟩
    obtain ⟨hsome, hruns⟩ := hspec.2 hreads
    rw [hsome, Option.map_some, Option.some_inj, buildUserSearchText_eq_collapse]
    have hpieces : ∀ run trailing, .citation run trailing ∈
        pieces (pythonClasses u) (backendCites u sourceIds) 0 value → Common run := by
      intro run trailing hmem
      have hfound : run ∈ (pieces (pythonClasses u) (backendCites u sourceIds) 0 value).filterMap
          Piece.run? := List.mem_filterMap.mpr ⟨_, hmem, rfl⟩
      rw [hruns] at hfound
      obtain ⟨hrun, hcites⟩ := List.mem_filter.mp hfound
      exact hcommon run hrun hcites
    have hcompare := compare_pieces h value hpieces
    rw [collapse, collapse, hcompare.collapse_eq (hagrees.mpr hparts) plain_nil rfl]

/-! ### Digits of another script -/

/-- ASCII and the fullwidth digits. -/
def fullwidthDigits : UnicodeData :=
  { UnicodeData.ascii with
    decimal := fun c =>
      if c.isDigit then some (c.toNat - '0'.toNat)
      else if 0xFF10 ≤ c.toNat ∧ c.toNat ≤ 0xFF19 then some (c.toNat - 0xFF10) else none }

theorem decimalDigits_fullwidth : DecimalDigits fullwidthDigits where
  ascii c hc := by
    have hnot : ¬(0xFF10 ≤ c.toNat ∧ c.toNat ≤ 0xFF19) := by omega
    show (if c.isDigit then _ else if _ then _ else none) = if c.isDigit then _ else none
    rw [if_neg hnot]
  not_space c hc := by
    have hrange : (48 ≤ c.toNat ∧ c.toNat ≤ 57) ∨ (0xFF10 ≤ c.toNat ∧ c.toNat ≤ 0xFF19) := by
      by_cases hdigit : c.isDigit = true
      · exact Or.inl (by simpa [Char.isDigit, UInt32.le_iff_toNat_le] using hdigit)
      · by_contra hnot
        rw [not_or] at hnot
        simp [fullwidthDigits, hdigit, hnot.2] at hc
    rw [isSearchSpace, Bool.or_eq_false_iff]
    simp only [List.mem_cons, List.not_mem_nil, or_false, decide_eq_false_iff_not,
      Bool.and_eq_false_iff]
    omega

theorem visibleText_eq_browserText_iff_ascii :
    visibleText fullwidthDigits [2] "See [1] [2].".toList =
        some (browserText [2] "See [1] [2].".toList) ↔
      Meets fullwidthDigits [2] "See [1] [2].".toList :=
  visibleText_eq_browserText_iff decimalDigits_fullwidth [2] "See [1] [2].".toList

/-- A fullwidth digit: the backend leaves the marker out, and the browser keeps it. -/
theorem visibleText_ne_browserText :
    DecimalDigits fullwidthDigits ∧
      visibleText fullwidthDigits [1] "[１]".toList ≠ some (browserText [1] "[１]".toList) := by
  refine ⟨decimalDigits_fullwidth, ?_⟩
  have hbackend : visibleText fullwidthDigits [1] "[１]".toList = some [] := by decide
  have hbrowser : browserText [1] "[１]".toList = "[１]".toList := by decide
  rw [hbackend, hbrowser]
  decide

end IChat.Conversations
