import IChat.General.Text
import IChat.General.TextSearch
import IChat.General.Utf16

/-!
# Titles in the history search

What a conversation's title is searched by, and where a match stands in the title as it is written.
A title is searched with its white space collapsed and its ASCII letters in lower case; the second
normaliser, `titleMatchRange`, keeps for every character of that form the offsets it comes from.

`titleMatchRange_spec`: a range is found exactly for the queries that the search finds in the title,
and it is the one of their first occurrence.
-/

namespace IChat.Conversations

/-- `SPACE`: the white space of ECMAScript. -/
def isSearchSpace (c : Char) : Bool :=
  c.toNat ∈ [0x9, 0xA, 0xB, 0xC, 0xD, 0x20, 0xA0, 0x1680, 0x2028, 0x2029, 0x202F, 0x205F, 0x3000,
    0xFEFF] || (0x2000 ≤ c.toNat && c.toNat ≤ 0x200A)

/-- `SPACE.sub(" ", text)`, when the last character was white space or not. -/
def collapseAfter : Bool → List Char → List Char
  | _, [] => []
  | inRun, c :: s =>
    if isSearchSpace c then
      if inRun then collapseAfter true s else ' ' :: collapseAfter true s
    else c :: collapseAfter false s

def buildUserSearchText (content : List Char) : List Char :=
  Text.stripChars (· = ' ') (collapseAfter false content)

def buildTitleSearchText (title : Option (List Char)) : List Char :=
  buildUserSearchText (title.getD [])

/-- One character of `str.translate(str.maketrans(ASCII_UPPER, ASCII_LOWER))`. -/
def asciiLower (c : Char) : Char :=
  if 'A' ≤ c ∧ c ≤ 'Z' then Char.ofNat (c.toNat + 32) else c

def normalizeQuery (query : List Char) : List Char := (buildUserSearchText query).map asciiLower

/-- The database's `search_normalize`: `lower` in the collation `C`. -/
def searchNormalize (value : List Char) : List Char := value.map asciiLower

/-- The variables of the loop of `title_match_range`. -/
structure TitleScan where
  chars : List Char
  spans : List (ℕ × ℕ)
  offset : ℕ

/-- `spans[-1] = (spans[-1][0], end)`. -/
def extendLast (spans : List (ℕ × ℕ)) (stop : ℕ) : List (ℕ × ℕ) :=
  match spans.getLast? with
  | some span => spans.dropLast ++ [(span.1, stop)]
  | none => spans

/-- The body of the loop. -/
def TitleScan.read (scan : TitleScan) (char : Char) : TitleScan :=
  let stop := scan.offset + Utf16.length [char]
  if isSearchSpace char then
    if scan.chars ≠ [] ∧ scan.chars.getLast? ≠ some ' ' then
      ⟨scan.chars ++ [' '], scan.spans ++ [(scan.offset, stop)], stop⟩
    else if scan.chars ≠ [] then ⟨scan.chars, extendLast scan.spans stop, stop⟩
    else ⟨scan.chars, scan.spans, stop⟩
  else ⟨scan.chars ++ [asciiLower char], scan.spans ++ [(scan.offset, stop)], stop⟩

def titleMatchRange (title query : List Char) : Option (ℕ × ℕ) := do
  let scan := title.foldl TitleScan.read ⟨[], [], 0⟩
  let index ← TextSearch.find query scan.chars
  if query = [] then none
  else
    let first ← scan.spans[index]?
    let last ← scan.spans[index + query.length - 1]?
    some (first.1, last.2)

/-! ### Letters -/

theorem isSearchSpace_space : isSearchSpace ' ' = true := by decide

/-- What holds of the 26 capital letters. -/
theorem forall_upper {P : Char → Prop} (h : ∀ n : Fin 26, P (Char.ofNat (65 + n))) {c : Char}
    (hc : 'A' ≤ c ∧ c ≤ 'Z') : P c := by
  have hrange : 65 ≤ c.toNat ∧ c.toNat ≤ 90 := hc
  have hletter := h ⟨c.toNat - 65, by omega⟩
  have hcode : 65 + (c.toNat - 65) = c.toNat := by omega
  rw [hcode, Char.ofNat_toNat] at hletter
  exact hletter

/-- Neither a letter nor its lower case is white space. -/
theorem isSearchSpace_asciiLower (c : Char) : isSearchSpace (asciiLower c) = isSearchSpace c := by
  by_cases hc : 'A' ≤ c ∧ c ≤ 'Z'
  · exact forall_upper (P := fun c => isSearchSpace (asciiLower c) = isSearchSpace c) (by decide) hc
  · rw [asciiLower, if_neg hc]

theorem asciiLower_asciiLower (c : Char) : asciiLower (asciiLower c) = asciiLower c := by
  by_cases hc : 'A' ≤ c ∧ c ≤ 'Z'
  · exact forall_upper (P := fun c => asciiLower (asciiLower c) = asciiLower c) (by decide) hc
  · have hself : asciiLower c = c := if_neg hc
    rw [hself, hself]

theorem asciiLower_eq_space_iff {c : Char} : asciiLower c = ' ' ↔ c = ' ' := by
  by_cases hc : 'A' ≤ c ∧ c ≤ 'Z'
  · exact forall_upper (P := fun c => asciiLower c = ' ' ↔ c = ' ') (by decide) hc
  · rw [asciiLower, if_neg hc]

/-! ### Cells -/

/-- What becomes one character of the collapsed text: a character, or a run of white space. -/
inductive Cell
  | char (c : Char) (hc : isSearchSpace c = false)
  | run (s : List Char) (hne : s ≠ []) (hall : ∀ c ∈ s, isSearchSpace c = true)

namespace Cell

/-- The cell as it is written. -/
def text : Cell → List Char
  | char c _ => [c]
  | run s _ _ => s

/-- The character it collapses to. -/
def collapsed : Cell → Char
  | char c _ => c
  | run _ _ _ => ' '

/-- The texts of some cells, one after the other. -/
def texts (cells : List Cell) : List Char := cells.flatMap text

/-- No two runs of white space stand next to each other, nor does one follow what stands before
when that is white space. -/
def Alternating : Bool → List Cell → Prop
  | _, [] => True
  | _, char _ _ :: cells => Alternating false cells
  | true, run _ _ _ :: _ => False
  | false, run _ _ _ :: cells => Alternating true cells

theorem text_ne_nil (cell : Cell) : cell.text ≠ [] := by
  cases cell with
  | char c => exact List.cons_ne_nil c []
  | run s hne => exact hne

@[simp] theorem texts_nil : texts [] = [] := rfl

@[simp] theorem texts_cons (cell : Cell) (cells : List Cell) :
    texts (cell :: cells) = cell.text ++ texts cells := rfl

@[simp] theorem texts_append (xs ys : List Cell) : texts (xs ++ ys) = texts xs ++ texts ys :=
  List.flatMap_append

theorem collapsed_char_ne_space {c : Char} (hc : isSearchSpace c = false) :
    (char c hc).collapsed ≠ ' ' := by
  intro h
  have hspace : c = ' ' := h
  rw [hspace, isSearchSpace_space] at hc
  exact Bool.noConfusion hc

theorem Alternating.weaken {cells : List Cell} {inRun : Bool} (h : Alternating inRun cells) :
    Alternating false cells := by
  cases inRun with
  | false => exact h
  | true =>
    cases cells with
    | nil => trivial
    | cons cell =>
      cases cell with
      | char => exact h
      | run => exact h.elim

/-- The parts of an alternating list are alternating. -/
theorem Alternating.of_append {xs ys : List Cell} {inRun : Bool}
    (h : Alternating inRun (xs ++ ys)) : Alternating inRun xs ∧ Alternating false ys := by
  induction xs generalizing inRun with
  | nil => exact ⟨by cases inRun <;> trivial, h.weaken⟩
  | cons cell xs ih =>
    cases cell with
    | char =>
      cases inRun with
      | false => exact ih h
      | true => exact ih h
    | run =>
      cases inRun with
      | false => exact ih h
      | true => exact h.elim

/-- A character can always follow. -/
theorem Alternating.concat_char {cells : List Cell} {inRun : Bool} (h : Alternating inRun cells)
    {c : Char} (hc : isSearchSpace c = false) : Alternating inRun (cells ++ [char c hc]) := by
  induction cells generalizing inRun with
  | nil => cases inRun <;> trivial
  | cons cell cells ih =>
    cases cell with
    | char => cases inRun <;> exact ih h
    | run =>
      cases inRun with
      | false => exact ih h
      | true => exact h.elim

/-- Whether a run may stand at the end is decided by the cell before it, and not by the run. -/
theorem Alternating.concat_run {cells : List Cell} {inRun : Bool} (h : Alternating inRun cells)
    (hne : cells ≠ []) (hlast : ∀ cell ∈ cells.getLast?, cell.collapsed ≠ ' ') {s : List Char}
    (hs : s ≠ []) (hall : ∀ c ∈ s, isSearchSpace c = true) :
    Alternating inRun (cells ++ [run s hs hall]) := by
  induction cells generalizing inRun with
  | nil => exact absurd rfl hne
  | cons cell cells ih =>
    by_cases hcells : cells = []
    · subst hcells
      cases cell with
      | char => cases inRun <;> trivial
      | run t ht hallt => exact absurd rfl (hlast (run t ht hallt) (by simp))
    · have hrest : ∀ cell ∈ cells.getLast?, cell.collapsed ≠ ' ' := by
        intro last hmem
        refine hlast last ?_
        rw [List.getLast?_cons, Option.mem_def.mp hmem]
        rfl
      cases cell with
      | char => cases inRun <;> exact ih h hcells hrest
      | run =>
        cases inRun with
        | false => exact ih h hcells hrest
        | true => exact h.elim

/-- What stands before a run is a character. -/
theorem Alternating.of_concat_run {cells : List Cell} {inRun : Bool} {s : List Char} {hs : s ≠ []}
    {hall : ∀ c ∈ s, isSearchSpace c = true} (h : Alternating inRun (cells ++ [run s hs hall])) :
    ∀ cell ∈ cells.getLast?, cell.collapsed ≠ ' ' := by
  intro cell hcell
  obtain ⟨before, rfl⟩ := List.getLast?_eq_some_iff.mp (Option.mem_def.mp hcell)
  rw [List.append_assoc] at h
  have hpair : Alternating false ([cell] ++ [run s hs hall]) := h.of_append.2
  cases cell with
  | char c hc => exact collapsed_char_ne_space hc
  | run => exact hpair.elim

/-- The first cell behind white space is a character. -/
theorem Alternating.head {cells : List Cell} (h : Alternating true cells) :
    ∀ cell ∈ cells.head?, cell.collapsed ≠ ' ' := by
  intro cell hcell
  obtain ⟨rest, rfl⟩ := List.head?_eq_some_iff.mp (Option.mem_def.mp hcell)
  cases cell with
  | char c hc => exact collapsed_char_ne_space hc
  | run => exact h.elim

end Cell

/-- Behind white space a run collapses to nothing. -/
theorem collapseAfter_true_append {s rest : List Char} (h : ∀ c ∈ s, isSearchSpace c = true) :
    collapseAfter true (s ++ rest) = collapseAfter true rest := by
  induction s with
  | nil => rfl
  | cons c s ih =>
    rw [List.cons_append, collapseAfter, if_pos (h c List.mem_cons_self), if_pos rfl]
    exact ih fun d hd => h d (List.mem_cons_of_mem c hd)

/-- A run collapses to one blank. -/
theorem collapseAfter_false_append {s rest : List Char} (hne : s ≠ [])
    (h : ∀ c ∈ s, isSearchSpace c = true) :
    collapseAfter false (s ++ rest) = ' ' :: collapseAfter true rest := by
  obtain ⟨c, s, rfl⟩ := List.exists_cons_of_ne_nil hne
  rw [List.cons_append, collapseAfter, if_pos (h c List.mem_cons_self),
    if_neg Bool.false_ne_true,
    collapseAfter_true_append fun d hd => h d (List.mem_cons_of_mem c hd)]

/-- Cells collapse to their characters. -/
theorem collapseAfter_texts {cells : List Cell} {inRun : Bool} (h : Cell.Alternating inRun cells) :
    collapseAfter inRun (Cell.texts cells) = cells.map Cell.collapsed := by
  induction cells generalizing inRun with
  | nil => rfl
  | cons cell cells ih =>
    cases cell with
    | char c hc =>
      have hrest : Cell.Alternating false cells := by cases inRun <;> exact h
      rw [Cell.texts_cons, Cell.text, List.singleton_append, collapseAfter,
        if_neg (by simp [hc]), ih hrest]
      rfl
    | run s hne hall =>
      cases inRun with
      | false =>
        rw [Cell.texts_cons, Cell.text, collapseAfter_false_append hne hall, ih h]
        rfl
      | true => exact h.elim

/-- Cells behind white space: the text collapses to their characters behind at most one blank. -/
theorem dropWhile_collapseAfter {lead : List Char} {cells : List Cell}
    (hlead : ∀ c ∈ lead, isSearchSpace c = true) (h : Cell.Alternating true cells) :
    (collapseAfter false (lead ++ Cell.texts cells)).dropWhile (· = ' ') =
      cells.map Cell.collapsed := by
  have hself : (cells.map Cell.collapsed).dropWhile (fun c => decide (c = ' ')) =
      cells.map Cell.collapsed := by
    refine Text.dropWhile_eq_self fun c hc => ?_
    rw [List.head?_map] at hc
    obtain ⟨cell, hcell, rfl⟩ := Option.map_eq_some_iff.mp (Option.mem_def.mp hc)
    exact decide_eq_false (h.head cell hcell)
  by_cases hnil : lead = []
  · rw [hnil, List.nil_append, collapseAfter_texts h.weaken, hself]
  · rw [collapseAfter_false_append hnil hlead, collapseAfter_texts h, List.dropWhile_cons,
      if_pos (decide_eq_true rfl), hself]

/-- The characters of cells behind white space are the stripped text, and one more blank if the
last cell is a run. -/
theorem map_collapsed_eq {cells : List Cell} (h : Cell.Alternating true cells) :
    cells.map Cell.collapsed = Text.rstrip (· = ' ') (cells.map Cell.collapsed) ∨
      cells.map Cell.collapsed = Text.rstrip (· = ' ') (cells.map Cell.collapsed) ++ [' '] := by
  have hkeep : ∀ part : List Cell, (∀ cell ∈ part.getLast?, cell.collapsed ≠ ' ') →
      Text.rstrip (· = ' ') (part.map Cell.collapsed) = part.map Cell.collapsed := by
    intro part hlast
    refine Text.rstrip_eq_self fun c hc => ?_
    rw [List.getLast?_map] at hc
    obtain ⟨cell, hcell, rfl⟩ := Option.map_eq_some_iff.mp (Option.mem_def.mp hc)
    exact decide_eq_false (hlast cell hcell)
  rcases List.eq_nil_or_concat cells with rfl | ⟨before, last, rfl⟩
  · exact Or.inl rfl
  · rw [List.concat_eq_append] at h ⊢
    cases last with
    | char c hc =>
      refine Or.inl (hkeep _ fun cell hcell => ?_).symm
      rw [List.getLast?_concat, Option.mem_some_iff] at hcell
      rw [← hcell]
      exact Cell.collapsed_char_ne_space hc
    | run s hs hall =>
      have hblank : (Cell.run s hs hall).collapsed = ' ' := rfl
      right
      rw [List.map_append, List.map_singleton, hblank, Text.rstrip_append_singleton,
        if_pos (decide_eq_true rfl), hkeep before h.of_concat_run]

/-! ### The scan -/

/-- The offsets of the cells, from the offset of the first. -/
def spansFrom : ℕ → List Cell → List (ℕ × ℕ)
  | _, [] => []
  | start, cell :: cells =>
    (start, start + Utf16.length cell.text) :: spansFrom (start + Utf16.length cell.text) cells

theorem spansFrom_append (start : ℕ) (xs ys : List Cell) :
    spansFrom start (xs ++ ys) =
      spansFrom start xs ++ spansFrom (start + Utf16.length (Cell.texts xs)) ys := by
  induction xs generalizing start with
  | nil => simp [spansFrom]
  | cons cell xs ih =>
    rw [List.cons_append, spansFrom, ih, spansFrom, Cell.texts_cons, Utf16.length_append,
      Nat.add_assoc]
    rfl

theorem length_spansFrom (start : ℕ) (cells : List Cell) :
    (spansFrom start cells).length = cells.length := by
  induction cells generalizing start with
  | nil => rfl
  | cons cell cells ih => rw [spansFrom, List.length_cons, List.length_cons, ih]

/-- The offsets of the cell that stands behind some others. -/
theorem getElem?_spansFrom (start : ℕ) (xs : List Cell) (cell : Cell) (ys : List Cell) :
    (spansFrom start (xs ++ cell :: ys))[xs.length]? =
      some (start + Utf16.length (Cell.texts xs),
        start + Utf16.length (Cell.texts xs) + Utf16.length cell.text) := by
  rw [spansFrom_append, List.getElem?_append_right (by rw [length_spansFrom]), length_spansFrom,
    Nat.sub_self]
  rfl

theorem extendLast_concat (spans : List (ℕ × ℕ)) (start stop stop' : ℕ) :
    extendLast (spans ++ [(start, stop)]) stop' = spans ++ [(start, stop')] := by
  rw [extendLast, List.getLast?_concat]
  simp

/-- The scan has read a title: white space and then cells. -/
structure TitleScan.HasRead (scan : TitleScan) (title lead : List Char) (cells : List Cell) :
    Prop where
  lead_space : ∀ c ∈ lead, isSearchSpace c = true
  title_eq : title = lead ++ Cell.texts cells
  alternating : Cell.Alternating true cells
  chars_eq : scan.chars = cells.map fun cell => asciiLower cell.collapsed
  spans_eq : scan.spans = spansFrom (Utf16.length lead) cells
  offset_eq : scan.offset = Utf16.length title

/-- Reading a character keeps the cells but for the last, which white space may lengthen. -/
theorem TitleScan.HasRead.read {scan : TitleScan} {title lead : List Char} {cells : List Cell}
    (h : scan.HasRead title lead cells) (c : Char) :
    ∃ lead' cells', (scan.read c).HasRead (title ++ [c]) lead' cells' := by
  have hoffset : scan.offset + Utf16.length [c] = Utf16.length (title ++ [c]) := by
    rw [h.offset_eq, Utf16.length_append]
  have hhere : scan.offset = Utf16.length lead + Utf16.length (Cell.texts cells) := by
    rw [h.offset_eq, h.title_eq, Utf16.length_append]
  have hnew : ∀ cell : Cell, cell.text = [c] → spansFrom (Utf16.length lead) (cells ++ [cell]) =
      scan.spans ++ [(scan.offset, scan.offset + Utf16.length [c])] := by
    intro cell hcell
    rw [spansFrom_append, ← h.spans_eq, ← hhere, spansFrom, hcell]
    rfl
  have htitle : ∀ cell : Cell, cell.text = [c] →
      title ++ [c] = lead ++ Cell.texts (cells ++ [cell]) := by
    intro cell hcell
    rw [h.title_eq, Cell.texts_append, Cell.texts_cons, hcell, List.append_assoc]
    rfl
  have hshown : ∀ cell : Cell, scan.chars ++ [asciiLower cell.collapsed] =
      (cells ++ [cell]).map fun cell => asciiLower cell.collapsed := by
    intro cell
    rw [h.chars_eq, List.map_append]
    rfl
  by_cases hc : isSearchSpace c = true
  · have hrun : ∀ d ∈ [c], isSearchSpace d = true := fun d hd => List.mem_singleton.mp hd ▸ hc
    rcases List.eq_nil_or_concat cells with rfl | ⟨before, last, rfl⟩
    · -- white space before everything that is shown
      have hnil : scan.chars = [] := h.chars_eq
      refine ⟨lead ++ [c], [], ?_⟩
      rw [TitleScan.read, if_pos hc, if_neg (fun hand => hand.1 hnil), if_neg (fun hne => hne hnil)]
      refine
        { lead_space := fun d hd => ?_
          title_eq := by rw [h.title_eq, Cell.texts_nil, List.append_nil, List.append_nil]
          alternating := trivial
          chars_eq := hnil
          spans_eq := h.spans_eq
          offset_eq := hoffset }
      exact (List.mem_append.mp hd).elim (h.lead_space d) (hrun d)
    · rw [List.concat_eq_append] at h hhere hnew htitle hshown
      have hlast : scan.chars.getLast? = some (asciiLower last.collapsed) := by
        rw [h.chars_eq, List.map_append, List.map_singleton, List.getLast?_concat]
      have hne : scan.chars ≠ [] := by
        rw [h.chars_eq]
        simp
      cases last with
      | char d hd =>
        have hblank : asciiLower (Cell.char d hd).collapsed ≠ ' ' := fun heq =>
          Cell.collapsed_char_ne_space hd (asciiLower_eq_space_iff.mp heq)
        have hbranch : scan.chars ≠ [] ∧ scan.chars.getLast? ≠ some ' ' := by
          refine ⟨hne, ?_⟩
          rw [hlast]
          exact fun heq => hblank (Option.some_inj.mp heq)
        refine ⟨lead, before ++ [.char d hd] ++ [.run [c] (List.cons_ne_nil c []) hrun], ?_⟩
        rw [TitleScan.read, if_pos hc, if_pos hbranch]
        refine
          { lead_space := h.lead_space
            title_eq := htitle _ rfl
            alternating := h.alternating.concat_run (by simp) (fun cell hcell => ?_) _ _
            chars_eq := hshown (.run [c] (List.cons_ne_nil c []) hrun)
            spans_eq := (hnew _ rfl).symm
            offset_eq := hoffset }
        rw [List.getLast?_concat, Option.mem_some_iff] at hcell
        rw [← hcell]
        exact Cell.collapsed_char_ne_space hd
      | run s hs hall =>
        -- the last run grows, and its offsets with it
        have hbranch : ¬(scan.chars ≠ [] ∧ scan.chars.getLast? ≠ some ' ') := by
          rw [hlast]
          exact fun hand => hand.2 rfl
        have hgrown : ∀ d ∈ s ++ [c], isSearchSpace d = true := fun d hd =>
          (List.mem_append.mp hd).elim (hall d) (hrun d)
        refine ⟨lead, before ++ [.run (s ++ [c]) (by simp) hgrown], ?_⟩
        rw [TitleScan.read, if_pos hc, if_neg hbranch, if_pos hne]
        have hbefore : before ≠ [] := by
          rintro rfl
          exact h.alternating
        have hspans : scan.spans = spansFrom (Utf16.length lead) before ++
            [(Utf16.length lead + Utf16.length (Cell.texts before),
              Utf16.length lead + Utf16.length (Cell.texts before) + Utf16.length s)] := by
          rw [h.spans_eq, spansFrom_append]
          rfl
        exact
          { lead_space := h.lead_space
            title_eq := by
              rw [h.title_eq, Cell.texts_append, Cell.texts_append, Cell.texts_cons,
                Cell.texts_cons, Cell.text, Cell.text, Cell.texts_nil, List.append_nil,
                List.append_nil, List.append_assoc, List.append_assoc]
            alternating :=
              h.alternating.of_append.1.concat_run hbefore h.alternating.of_concat_run _ _
            chars_eq := by
              rw [h.chars_eq, List.map_append, List.map_append]
              rfl
            spans_eq := by
              rw [hspans, extendLast_concat, spansFrom_append, hhere, Cell.texts_append,
                Utf16.length_append, spansFrom, Cell.texts_cons, Cell.text, Cell.text,
                Cell.texts_nil, List.append_nil, Utf16.length_append, Nat.add_assoc, Nat.add_assoc,
                Nat.add_assoc]
              rfl
            offset_eq := hoffset }
  · rw [Bool.not_eq_true] at hc
    refine ⟨lead, cells ++ [.char c hc], ?_⟩
    rw [TitleScan.read, if_neg (by simp [hc])]
    exact
      { lead_space := h.lead_space
        title_eq := htitle _ rfl
        alternating := h.alternating.concat_char hc
        chars_eq := hshown (.char c hc)
        spans_eq := (hnew _ rfl).symm
        offset_eq := hoffset }

/-- What the loop has read at its end. -/
theorem exists_hasRead (title : List Char) :
    ∃ lead cells, (title.foldl TitleScan.read ⟨[], [], 0⟩).HasRead title lead cells := by
  induction title using List.reverseRecOn with
  | nil =>
    exact ⟨[], [],
      { lead_space := fun c hc => absurd hc List.not_mem_nil
        title_eq := rfl
        alternating := trivial
        chars_eq := rfl
        spans_eq := rfl
        offset_eq := rfl }⟩
  | append_singleton title c ih =>
    obtain ⟨lead, cells, h⟩ := ih
    rw [List.foldl_concat]
    exact h.read c

/-- The text that the database searches a title by. -/
def titleText (title : List Char) : List Char := searchNormalize (buildTitleSearchText (some title))

/-- A title without a last blank: what the scan shows is the text that the title is searched by, and
at most one more blank. -/
theorem TitleScan.HasRead.chars_eq_titleText {scan : TitleScan} {title lead : List Char}
    {cells : List Cell} (h : scan.HasRead title lead cells) :
    scan.chars = titleText title ∨ scan.chars = titleText title ++ [' '] := by
  have htext : titleText title =
      (Text.rstrip (· = ' ') (cells.map Cell.collapsed)).map asciiLower := by
    rw [titleText, searchNormalize, buildTitleSearchText, Option.getD_some, buildUserSearchText,
      Text.stripChars, h.title_eq, dropWhile_collapseAfter h.lead_space h.alternating]
  have hshown : scan.chars = (cells.map Cell.collapsed).map asciiLower := by
    rw [h.chars_eq, List.map_map]
    rfl
  rcases map_collapsed_eq h.alternating with hkeep | hblank
  · left
    rw [hshown, htext, ← hkeep]
  · right
    rw [hshown, htext, hblank, List.map_append, ← hblank]
    rfl

/-! ### Queries -/

/-- A normalized query does not start with a blank. -/
theorem head?_normalizeQuery {raw : List Char} : ∀ c ∈ (normalizeQuery raw).head?, c ≠ ' ' := by
  intro c hc
  rw [normalizeQuery, List.head?_map] at hc
  obtain ⟨d, hd, rfl⟩ := Option.map_eq_some_iff.mp (Option.mem_def.mp hc)
  exact fun heq => of_decide_eq_false (Text.head?_stripChars d hd) (asciiLower_eq_space_iff.mp heq)

/-- Nor does it end with one. -/
theorem getLast?_normalizeQuery {raw : List Char} :
    ∀ c ∈ (normalizeQuery raw).getLast?, c ≠ ' ' := by
  intro c hc
  rw [normalizeQuery, List.getLast?_map] at hc
  obtain ⟨d, hd, rfl⟩ := Option.map_eq_some_iff.mp (Option.mem_def.mp hc)
  exact fun heq => of_decide_eq_false (Text.getLast?_rstrip d hd) (asciiLower_eq_space_iff.mp heq)

/-- A text in which white space is single blanks, when the character before it is white space or
not. -/
def Collapsed : Bool → List Char → Prop
  | _, [] => True
  | inRun, c :: s =>
    (isSearchSpace c = true ∧ inRun = false ∧ c = ' ' ∧ Collapsed true s) ∨
      (isSearchSpace c = false ∧ Collapsed false s)

theorem collapsed_collapseAfter (inRun : Bool) (s : List Char) :
    Collapsed inRun (collapseAfter inRun s) := by
  induction s generalizing inRun with
  | nil => trivial
  | cons c s ih =>
    rw [collapseAfter]
    by_cases hc : isSearchSpace c = true
    · rw [if_pos hc]
      cases inRun with
      | true => exact ih true
      | false => exact Or.inl ⟨isSearchSpace_space, rfl, rfl, ih true⟩
    · rw [if_neg hc]
      exact Or.inr ⟨by simpa using hc, ih false⟩

/-- Collapsing leaves such a text alone. -/
theorem Collapsed.collapseAfter_eq {inRun : Bool} {s : List Char} (h : Collapsed inRun s) :
    collapseAfter inRun s = s := by
  induction s generalizing inRun with
  | nil => rfl
  | cons c s ih =>
    rw [collapseAfter]
    obtain ⟨hc, rfl, rfl, hrest⟩ | ⟨hc, hrest⟩ := h
    · rw [if_pos hc, if_neg Bool.false_ne_true, ih hrest]
    · rw [if_neg (by simp [hc]), ih hrest]

theorem Collapsed.weaken {inRun : Bool} {s : List Char} (h : Collapsed inRun s) :
    Collapsed false s := by
  cases s with
  | nil => trivial
  | cons =>
    obtain ⟨hc, -, hblank, hrest⟩ | h := h
    · exact Or.inl ⟨hc, rfl, hblank, hrest⟩
    · exact Or.inr h

theorem Collapsed.of_append {inRun : Bool} {s t : List Char} (h : Collapsed inRun (s ++ t)) :
    Collapsed inRun s ∧ Collapsed false t := by
  induction s generalizing inRun with
  | nil => exact ⟨trivial, h.weaken⟩
  | cons c s ih =>
    obtain ⟨hc, hrun, hblank, hrest⟩ | ⟨hc, hrest⟩ := h
    · exact ⟨Or.inl ⟨hc, hrun, hblank, (ih hrest).1⟩, (ih hrest).2⟩
    · exact ⟨Or.inr ⟨hc, (ih hrest).1⟩, (ih hrest).2⟩

/-- Lower case changes nothing about white space. -/
theorem collapseAfter_map_asciiLower (inRun : Bool) (s : List Char) :
    collapseAfter inRun (s.map asciiLower) = (collapseAfter inRun s).map asciiLower := by
  induction s generalizing inRun with
  | nil => rfl
  | cons c s ih =>
    rw [List.map_cons, collapseAfter, isSearchSpace_asciiLower, collapseAfter]
    split
    · split
      · exact ih true
      · rw [ih true]
        rfl
    · rw [ih false]
      rfl

theorem stripChars_map_asciiLower (s : List Char) :
    Text.stripChars (· = ' ') (s.map asciiLower) =
      (Text.stripChars (· = ' ') s).map asciiLower := by
  have hpred : (fun c => decide (c = ' ')) ∘ asciiLower = fun c => decide (c = ' ') := by
    funext c
    exact decide_eq_decide.mpr asciiLower_eq_space_iff
  rw [Text.stripChars, Text.rstrip, List.dropWhile_map, hpred, ← List.map_reverse,
    List.dropWhile_map, hpred, ← List.map_reverse]
  rfl

/-- A text and its lower case are searched as the same query. -/
theorem normalizeQuery_map_asciiLower (s : List Char) :
    normalizeQuery (s.map asciiLower) = normalizeQuery s := by
  rw [normalizeQuery, buildUserSearchText, collapseAfter_map_asciiLower, stripChars_map_asciiLower,
    List.map_map]
  refine List.map_congr_left fun c _ => ?_
  exact asciiLower_asciiLower c

/-- A normalized query is normalized to itself. -/
theorem normalizeQuery_normalizeQuery (raw : List Char) :
    normalizeQuery (normalizeQuery raw) = normalizeQuery raw := by
  have hcollapsed : Collapsed false (buildUserSearchText raw) := by
    obtain ⟨front, hfront⟩ := List.dropWhile_suffix (fun c => decide (c = ' '))
      (l := collapseAfter false raw)
    obtain ⟨back, hback⟩ := Text.rstrip_prefix (fun c => decide (c = ' '))
      ((collapseAfter false raw).dropWhile fun c => decide (c = ' '))
    have hall := collapsed_collapseAfter false raw
    rw [← hfront] at hall
    have hrest := hall.of_append.2
    rw [← hback] at hrest
    exact hrest.of_append.1
  have hstrip : Text.stripChars (· = ' ') (buildUserSearchText raw) = buildUserSearchText raw :=
    Text.stripChars_eq_self Text.head?_stripChars Text.getLast?_rstrip
  calc normalizeQuery (normalizeQuery raw) = normalizeQuery (buildUserSearchText raw) :=
        normalizeQuery_map_asciiLower _
    _ = (Text.stripChars (· = ' ') (collapseAfter false (buildUserSearchText raw))).map
          asciiLower := rfl
    _ = normalizeQuery raw := by
        rw [hcollapsed.collapseAfter_eq, hstrip]
        rfl

/-- Cells with a character at both ends are normalized to what they show. -/
theorem normalizeQuery_texts {cells : List Cell} (h : Cell.Alternating false cells)
    (hhead : ∀ cell ∈ cells.head?, cell.collapsed ≠ ' ')
    (hlast : ∀ cell ∈ cells.getLast?, cell.collapsed ≠ ' ') :
    normalizeQuery (Cell.texts cells) = cells.map fun cell => asciiLower cell.collapsed := by
  have hstrip : Text.stripChars (· = ' ') (cells.map Cell.collapsed) =
      cells.map Cell.collapsed := by
    refine Text.stripChars_eq_self (fun c hc => ?_) fun c hc => ?_
    · rw [List.head?_map] at hc
      obtain ⟨cell, hcell, rfl⟩ := Option.map_eq_some_iff.mp (Option.mem_def.mp hc)
      exact decide_eq_false (hhead cell hcell)
    · rw [List.getLast?_map] at hc
      obtain ⟨cell, hcell, rfl⟩ := Option.map_eq_some_iff.mp (Option.mem_def.mp hc)
      exact decide_eq_false (hlast cell hcell)
  rw [normalizeQuery, buildUserSearchText, collapseAfter_texts h, hstrip, List.map_map]
  rfl

/-- What stands before a match, as the search sees it. -/
def normalizedBefore (s : List Char) : List Char :=
  ((collapseAfter false s).dropWhile (· = ' ')).map asciiLower

/-- The range of an occurrence, in the offsets of the cells it is made of. -/
theorem TitleScan.HasRead.range_eq {scan : TitleScan} {title lead query : List Char}
    {cells : List Cell} (h : scan.HasRead title lead cells) (hne : query ≠ []) {index : ℕ}
    (hfind : TextSearch.find query scan.chars = some index) :
    ∃ xs ms zs, cells = xs ++ ms ++ zs ∧ xs.length = index ∧
      (ms.map fun cell => asciiLower cell.collapsed) = query ∧
      (scan.spans[index]?.map Prod.fst) = some (Utf16.length (lead ++ Cell.texts xs)) ∧
      (scan.spans[index + query.length - 1]?.map Prod.snd) =
        some (Utf16.length (lead ++ Cell.texts xs ++ Cell.texts ms)) := by
  have hcut := TextSearch.eq_append_of_find hfind
  have hindex : index ≤ scan.chars.length := (TextSearch.find_eq_some_iff.mp hfind).1
  rw [h.chars_eq, ← h.chars_eq] at hcut
  obtain ⟨before, zs, hbefore, hfront, -⟩ := List.map_eq_append_iff.mp (h.chars_eq.symm.trans hcut)
  obtain ⟨xs, ms, rfl, htake, hms⟩ := List.map_eq_append_iff.mp hfront
  have hxs : xs.length = index := by
    rw [← List.length_map, htake, List.length_take, Nat.min_eq_left hindex]
  have hlen : ms.length = query.length := by rw [← hms, List.length_map]
  have hmne : ms ≠ [] := by
    rintro rfl
    exact hne hms.symm
  refine ⟨xs, ms, zs, hbefore, hxs, hms, ?_, ?_⟩
  · obtain ⟨m, rest, rfl⟩ := List.exists_cons_of_ne_nil hmne
    rw [h.spans_eq, hbefore, List.append_assoc, List.cons_append, ← hxs, getElem?_spansFrom,
      Utf16.length_append]
    rfl
  · obtain ⟨init, m, rfl⟩ := (List.eq_nil_or_concat ms).resolve_left hmne
    have hlast : index + query.length - 1 = (xs ++ init).length := by
      rw [List.length_append, hxs, ← hlen, List.length_concat]
      omega
    have hcells : xs ++ init.concat m ++ zs = (xs ++ init) ++ m :: zs := by simp
    rw [h.spans_eq, hbefore, hcells, hlast, getElem?_spansFrom]
    simp [Nat.add_assoc]

/-- A query is found in the scan where it is found in the text that the title is searched by. -/
theorem TitleScan.HasRead.find_chars {scan : TitleScan} {title lead : List Char} {cells : List Cell}
    (h : scan.HasRead title lead cells) {raw : List Char} (hquery : normalizeQuery raw ≠ []) :
    TextSearch.find (normalizeQuery raw) scan.chars =
      TextSearch.find (normalizeQuery raw) (titleText title) := by
  rcases h.chars_eq_titleText with hsame | hblank
  · rw [hsame]
  · rw [hblank]
    exact TextSearch.find_append_singleton hquery fun hlast =>
      getLast?_normalizeQuery _ (Option.mem_def.mpr hlast) rfl

/-- An occurrence in the text that a title is searched by, carried back to the title. -/
theorem titleMatchRange_of_find {title raw : List Char} (hquery : normalizeQuery raw ≠ [])
    {index : ℕ} (hfind : TextSearch.find (normalizeQuery raw) (titleText title) = some index) :
    ∃ before matched after, title = before ++ matched ++ after ∧ matched ≠ [] ∧
      titleMatchRange title (normalizeQuery raw) =
        some (Utf16.length before, Utf16.length (before ++ matched)) ∧
      normalizeQuery matched = normalizeQuery raw ∧
      normalizedBefore before = (titleText title).take index := by
  -- the title is read as blanks and words; a match starts and ends at one of them
  obtain ⟨lead, cells, h⟩ := exists_hasRead title
  have hscan := hfind
  rw [← h.find_chars hquery] at hscan
  obtain ⟨xs, ms, zs, rfl, hxs, hms, hfirst, hlast⟩ := h.range_eq hquery hscan
  obtain ⟨first, hfirst, hstart⟩ := Option.map_eq_some_iff.mp hfirst
  obtain ⟨last, hlast, hstop⟩ := Option.map_eq_some_iff.mp hlast
  have halternating := h.alternating.of_append.1.of_append
  refine ⟨lead ++ Cell.texts xs, Cell.texts ms, Cell.texts zs, ?_, ?_, ?_, ?_, ?_⟩
  · rw [h.title_eq, Cell.texts_append, Cell.texts_append, List.append_assoc, List.append_assoc,
      List.append_assoc]
  · obtain ⟨m, rest, rfl⟩ : ∃ m rest, ms = m :: rest := by
      refine List.exists_cons_of_ne_nil ?_
      rintro rfl
      exact hquery hms.symm
    rw [Cell.texts_cons]
    exact List.append_ne_nil_of_left_ne_nil m.text_ne_nil _
  · rw [← hstart, ← hstop]
    simp only [titleMatchRange, hscan, Option.bind_eq_bind, Option.bind_some, if_neg hquery, hfirst,
      hlast]
  · -- the query has a character at both ends, and so have the cells it is found in
    have hends : ∀ cell, cell ∈ ms.head? ∨ cell ∈ ms.getLast? → cell.collapsed ≠ ' ' := by
      intro cell hcell heq
      have hshown : ∀ c, c = asciiLower cell.collapsed → c = ' ' := fun c hc => by
        rw [hc, heq]
        rfl
      have hfront : ∀ c ∈ (normalizeQuery raw).head?, c ≠ ' ' := head?_normalizeQuery
      have hback : ∀ c ∈ (normalizeQuery raw).getLast?, c ≠ ' ' := getLast?_normalizeQuery
      rw [← hms, List.head?_map] at hfront
      rw [← hms, List.getLast?_map] at hback
      cases hcell with
      | inl hhead =>
        rw [Option.mem_def.mp hhead] at hfront
        exact hfront _ rfl (hshown _ rfl)
      | inr htail =>
        rw [Option.mem_def.mp htail] at hback
        exact hback _ rfl (hshown _ rfl)
    rw [normalizeQuery_texts halternating.2 (fun cell hcell => hends cell (Or.inl hcell))
      (fun cell hcell => hends cell (Or.inr hcell)), hms]
  · have hbefore : normalizedBefore (lead ++ Cell.texts xs) =
        xs.map fun cell => asciiLower cell.collapsed := by
      rw [normalizedBefore, dropWhile_collapseAfter h.lead_space halternating.1, List.map_map]
      rfl
    have htake : (titleText title).take index =
        ((xs ++ ms ++ zs).map fun cell => asciiLower cell.collapsed).take index := by
      rw [← h.chars_eq]
      rcases h.chars_eq_titleText with hsame | hblank
      · rw [hsame]
      · rw [hblank, List.take_append_of_le_length (TextSearch.find_eq_some_iff.mp hfind).1]
    rw [hbefore, htake, List.append_assoc, List.map_append, ← hxs,
      List.take_left' (List.length_map _)]

/-- A title is matched exactly where the search matches it. The range that is returned cuts the
title: what stands in it is normalized to the query, and what stands before it to what stands before
the first occurrence in the text that the title is searched by. -/
theorem titleMatchRange_spec (title raw : List Char) (hquery : normalizeQuery raw ≠ []) :
    ((titleMatchRange title (normalizeQuery raw)).isSome ↔
      normalizeQuery raw <:+: searchNormalize (buildTitleSearchText (some title))) ∧
    ∀ start stop, titleMatchRange title (normalizeQuery raw) = some (start, stop) →
      start < stop ∧ stop ≤ Utf16.length title ∧
      ∃ before matched after, title = before ++ matched ++ after ∧
        start = Utf16.length before ∧ stop = Utf16.length (before ++ matched) ∧
        (∀ s, Utf16.encode s = Utf16.slice title start stop ↔ s = matched) ∧
        normalizeQuery matched = normalizeQuery raw ∧
        TextSearch.find (normalizeQuery raw)
          (searchNormalize (buildTitleSearchText (some title))) =
            some (normalizedBefore before).length ∧
        normalizedBefore before <+: searchNormalize (buildTitleSearchText (some title)) := by
  obtain hnone | ⟨index, hfind⟩ :
      TextSearch.find (normalizeQuery raw) (titleText title) = none ∨
        ∃ index, TextSearch.find (normalizeQuery raw) (titleText title) = some index :=
    Option.eq_none_or_eq_some _
  · obtain ⟨lead, cells, h⟩ := exists_hasRead title
    have hrange : titleMatchRange title (normalizeQuery raw) = none := by
      rw [← h.find_chars hquery] at hnone
      simp only [titleMatchRange, hnone, Option.bind_eq_bind, Option.bind_none]
    have hnot := mt TextSearch.find_isSome_iff.mpr (Option.not_isSome_iff_eq_none.mpr hnone)
    refine ⟨?_, fun start stop heq => ?_⟩
    · rw [hrange]
      exact ⟨fun hsome => Bool.noConfusion hsome, fun hinfix => absurd hinfix hnot⟩
    · rw [hrange] at heq
      cases heq
  · obtain ⟨before, matched, after, htitle, hne, hrange, hmatched, hbefore⟩ :=
      titleMatchRange_of_find hquery hfind
    have hinfix : normalizeQuery raw <:+: titleText title := by
      rw [← TextSearch.find_isSome_iff, hfind]
      rfl
    refine ⟨?_, fun start stop heq => ?_⟩
    · rw [hrange]
      exact ⟨fun _ => hinfix, fun _ => rfl⟩
    · rw [hrange, Option.some_inj, Prod.mk.injEq] at heq
      obtain ⟨rfl, rfl⟩ := heq
      have hindex : (normalizedBefore before).length = index := by
        rw [hbefore, List.length_take, Nat.min_eq_left (TextSearch.find_eq_some_iff.mp hfind).1]
      refine ⟨?_, ?_, before, matched, after, htitle, rfl, rfl, fun s => ?_, hmatched, ?_, ?_⟩
      · have hpos := Utf16.length_pos hne
        rw [Utf16.length_append]
        omega
      · rw [htitle, Utf16.length_append (before ++ matched)]
        omega
      · rw [htitle, Utf16.slice_append]
        exact Utf16.encode_injective.eq_iff
      · rw [hindex]
        exact hfind
      · rw [hbefore]
        exact List.take_prefix _ _

/-- A title with a tab before a character outside the BMP, and a query across them. -/
theorem titleMatchRange_spec_emoji :
    titleMatchRange "  Hi\t😀 x".toList (normalizeQuery "I  😀".toList) = some (3, 7) ∧
      normalizeQuery "I  😀".toList <:+:
        searchNormalize (buildTitleSearchText (some "  Hi\t😀 x".toList)) :=
  ⟨by decide, (titleMatchRange_spec _ _ (by decide)).1.mp (by decide)⟩

end IChat.Conversations
