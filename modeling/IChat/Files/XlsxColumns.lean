import Mathlib.Data.List.Induction
import Mathlib.Data.List.Sort
import IChat.Files.Ooxml
import IChat.General.BijectiveNumeral
import IChat.General.Digits
import IChat.General.Except

/-!
# The columns of a worksheet

`_xlsx_hidden_columns` merges the ranges of columns that are switched off, and `_column_index` reads
the number of a column from a reference such as `AB12`. `hiddenColumns_normal`: the merged ranges
are in order, apart from each other, and hold the columns of the ranges. `columnNumber_lt_iff`: the
numbers are in the order of the columns.
-/

namespace IChat.Files

open Xml

/-- The first and the last column of a range. -/
abbrev ColumnRange := ℕ × ℕ

/-- A `ValueError` of `int`, which is no `FileProcessingError`. -/
def valueError : ParseError := "ValueError"

/-- `int(lower)`, for a text of digits. -/
def columnNumberOf (text : String) : Except ParseError ℕ :=
  match Text.parseNatural text.toList with
  | none => .error valueError
  | some n => .ok n

/-- The range of a `col` that is switched off. -/
def columnRange (column : Element) : Except ParseError ColumnRange := do
  match column.get ⟨"", "min"⟩, column.get ⟨"", "max"⟩ with
  | some lower, some upper =>
    if !Text.isDigits lower.toList || !Text.isDigits upper.toList then .error invalidOoxml
    else
      let start ← columnNumberOf lower
      let stop ← columnNumberOf upper
      if start < 1 ∨ stop < start then .error invalidOoxml else .ok (start, stop)
  | _, _ => .error invalidOoxml

/-- The ranges that are switched off. -/
def hiddenRanges (worksheet : Element) : Except ParseError (List ColumnRange) :=
  (worksheet.iter.filter fun e => e.name = "col" && trueXmlValue (e.get ⟨"", "hidden"⟩)).mapM
    columnRange

/-- The order of tuples. -/
def TupleLe (r s : ColumnRange) : Prop := r.1 < s.1 ∨ r.1 = s.1 ∧ r.2 ≤ s.2

instance : DecidableRel TupleLe := fun r s =>
  inferInstanceAs (Decidable (r.1 < s.1 ∨ r.1 = s.1 ∧ r.2 ≤ s.2))

/-- One round of the merge loop; the range that was added last stands first. -/
def mergeRange (merged : List ColumnRange) (range : ColumnRange) : List ColumnRange :=
  match merged with
  | [] => [range]
  | last :: rest =>
    if range.1 ≤ last.2 + 1 then (last.1, max range.2 last.2) :: rest else range :: last :: rest

/-- The merged ranges. -/
def mergeColumns (ranges : List ColumnRange) : List ColumnRange :=
  ((ranges.insertionSort TupleLe).foldl mergeRange []).reverse

/-- `_xlsx_hidden_columns`. -/
def xlsxHiddenColumns (worksheet : Element) : Except ParseError (List ColumnRange) := do
  let ranges ← hiddenRanges worksheet
  return mergeColumns ranges

/-- `_column_is_hidden`. -/
def columnIsHidden (columnIndex : ℕ) (hiddenColumns : List ColumnRange) : Bool :=
  hiddenColumns.any fun r => r.1 ≤ columnIndex ∧ columnIndex ≤ r.2

/-- An ASCII letter. -/
def isLetter (c : Char) : Bool := ('A' ≤ c ∧ c ≤ 'Z') ∨ ('a' ≤ c ∧ c ≤ 'z')

/-- The letters of a reference that matches `_CELL_REFERENCE_RE`. -/
def referenceLetters (reference : List Char) : Option (List Char) :=
  let letters := reference.takeWhile isLetter
  match reference.dropWhile isLetter with
  | [] => none
  | first :: rest =>
    if 1 ≤ letters.length ∧ letters.length ≤ 3 ∧ '1' ≤ first ∧ first ≤ '9' ∧ rest.length ≤ 9 ∧
        rest.all Char.isDigit then some letters
    else none

/-- The number of the letters of a column. -/
def columnNumber (letters : List Char) : ℕ :=
  (letters.map Char.toUpper).foldl (fun value c => value * 26 + (c.toNat - 'A'.toNat + 1)) 0

/-- `_column_index`. -/
def xlsxColumnIndex (reference : String) : Except ParseError ℕ :=
  match referenceLetters reference.toList with
  | none => .error invalidOoxml
  | some letters => .ok (columnNumber letters)

/-! ### The merged ranges -/

section merged

variable {merged ranges : List ColumnRange} {range : ColumnRange} {worksheet : Element}

/-- Ranges that are in order and apart: between two of them there is a column. -/
structure NormalRanges (ranges : List ColumnRange) : Prop where
  nonempty : ∀ r ∈ ranges, r.1 ≤ r.2
  apart : ranges.Pairwise fun r s => r.2 + 1 < s.1

/-- A column in one of some ranges. -/
def InRanges (column : ℕ) (ranges : List ColumnRange) : Prop :=
  ∃ r ∈ ranges, r.1 ≤ column ∧ column ≤ r.2

/-- What the merge loop keeps, after some ranges: the ranges so far, the last one first. -/
structure MergedRanges (done merged : List ColumnRange) : Prop where
  nonempty : ∀ r ∈ merged, r.1 ≤ r.2
  apart : merged.Pairwise fun s r => r.2 + 1 < s.1
  column : ∀ c, InRanges c merged ↔ InRanges c done
  last : ∀ r ∈ merged.head?, ∃ s ∈ done, r.1 ≤ s.1

theorem inRanges_append {c : ℕ} {ranges' : List ColumnRange} :
    InRanges c (ranges ++ ranges') ↔ InRanges c ranges ∨ InRanges c ranges' := by
  simp only [InRanges, List.mem_append, or_and_right, exists_or]

theorem inRanges_cons {c : ℕ} :
    InRanges c (range :: ranges) ↔ (range.1 ≤ c ∧ c ≤ range.2) ∨ InRanges c ranges := by
  simp only [InRanges, List.mem_cons, or_and_right, exists_or, exists_eq_left]

/-- **Step** of the merge loop. -/
theorem MergedRanges.mergeRange {done : List ColumnRange} (h : MergedRanges done merged)
    (hrange : range.1 ≤ range.2) (hsorted : ∀ r ∈ done, r.1 ≤ range.1) :
    MergedRanges (done ++ [range]) (Files.mergeRange merged range) := by
  have hsingle : ∀ c, InRanges c [range] ↔ range.1 ≤ c ∧ c ≤ range.2 := by
    intro c
    rw [inRanges_cons, or_iff_left]
    rintro ⟨r, hr, -⟩
    exact List.not_mem_nil hr
  cases merged with
  | nil =>
    refine ⟨?_, List.pairwise_singleton _ _, fun c => ?_, ?_⟩
    · intro r hr
      rw [List.mem_singleton.mp hr]
      exact hrange
    · rw [inRanges_append, ← h.column c, Files.mergeRange, or_iff_right]
      rintro ⟨r, hr, -⟩
      exact List.not_mem_nil hr
    · intro r hr
      cases hr
      exact ⟨range, List.mem_append_right _ List.mem_cons_self, Nat.le_refl _⟩
  | cons last =>
    obtain ⟨hbelow, hrest⟩ := List.pairwise_cons.mp h.apart
    have hlast := h.nonempty last List.mem_cons_self
    obtain ⟨s, hs, hle⟩ := h.last last rfl
    -- the ranges come sorted, so only the last merged one can be joined
    have hstart : last.1 ≤ range.1 := hle.trans (hsorted s hs)
    rw [Files.mergeRange]
    split_ifs with hjoin
    · refine ⟨?_, ?_, fun c => ?_, ?_⟩
      · intro r hr
        rcases List.mem_cons.mp hr with rfl | hr
        · exact hlast.trans (Nat.le_max_right _ _)
        · exact h.nonempty r (List.mem_cons_of_mem _ hr)
      · exact List.pairwise_cons.mpr ⟨hbelow, hrest⟩
      · -- the two ranges leave no column between them
        rw [inRanges_append, hsingle, ← h.column c, inRanges_cons, inRanges_cons]
        dsimp only
        have hmax : c ≤ max range.2 last.2 ↔ c ≤ range.2 ∨ c ≤ last.2 := le_max_iff
        rw [hmax]
        constructor
        · rintro (⟨hfirst, hend⟩ | hin)
          · by_cases hc : c ≤ last.2
            · exact .inl (.inl ⟨hfirst, hc⟩)
            · exact .inr ⟨by omega, by omega⟩
          · exact .inl (.inr hin)
        · rintro ((⟨hfirst, hend⟩ | hin) | ⟨hfirst, hend⟩)
          · exact .inl ⟨hfirst, .inr hend⟩
          · exact .inr hin
          · exact .inl ⟨hstart.trans hfirst, .inl hend⟩
      · intro r hr
        cases hr
        exact ⟨s, List.mem_append_left _ hs, hle⟩
    · refine ⟨?_, ?_, fun c => ?_, ?_⟩
      · intro r hr
        rcases List.mem_cons.mp hr with rfl | hr
        · exact hrange
        · exact h.nonempty r hr
      · refine List.pairwise_cons.mpr ⟨fun r hr => ?_, h.apart⟩
        rcases List.mem_cons.mp hr with rfl | hr
        · omega
        · have happart := hbelow r hr
          omega
      · rw [inRanges_append, hsingle, ← h.column c, inRanges_cons, or_comm]
      · intro r hr
        cases hr
        exact ⟨range, List.mem_append_right _ List.mem_cons_self, Nat.le_refl _⟩

/-- **Run** of the merge loop, over ranges in order. -/
theorem mergedRanges_foldl (hranges : ∀ r ∈ ranges, r.1 ≤ r.2)
    (hsorted : ranges.Pairwise fun r s => r.1 ≤ s.1) :
    MergedRanges ranges (ranges.foldl mergeRange []) := by
  induction ranges using List.reverseRecOn with
  | nil => exact ⟨nofun, .nil, fun c => Iff.rfl, nofun⟩
  | append_singleton ranges range ih =>
    rw [List.pairwise_append] at hsorted
    rw [List.foldl_concat]
    exact (ih (fun r hr => hranges r (List.mem_append_left _ hr)) hsorted.1).mergeRange
      (hranges range (List.mem_append_right _ List.mem_cons_self))
      fun r hr => hsorted.2.2 r hr range List.mem_cons_self

theorem pairwise_insertionSort_tupleLe (ranges : List ColumnRange) :
    (ranges.insertionSort TupleLe).Pairwise fun r s => r.1 ≤ s.1 := by
  have htotal : Std.Total TupleLe := ⟨fun r s => by
    rw [TupleLe, TupleLe]
    omega⟩
  have htrans : IsTrans ColumnRange TupleLe := ⟨fun r s t hrs hst => by
    rw [TupleLe] at hrs hst ⊢
    omega⟩
  refine (List.pairwise_insertionSort TupleLe ranges).imp fun {r s} h => ?_
  rw [TupleLe] at h
  omega

/-- **The merged ranges** are normal and hold the columns of the ranges. -/
theorem mergeColumns_normal (hranges : ∀ r ∈ ranges, r.1 ≤ r.2) :
    NormalRanges (mergeColumns ranges) ∧
      ∀ c, columnIsHidden c (mergeColumns ranges) = true ↔ InRanges c ranges := by
  have hmem : ∀ r, r ∈ ranges.insertionSort TupleLe ↔ r ∈ ranges :=
    fun r => List.mem_insertionSort TupleLe
  have hmerged := mergedRanges_foldl (fun r hr => hranges r ((hmem r).mp hr))
    (pairwise_insertionSort_tupleLe ranges)
  refine ⟨⟨fun r hr => hmerged.nonempty r (List.mem_reverse.mp hr),
    List.pairwise_reverse.mpr hmerged.apart⟩, fun c => ?_⟩
  have hcolumn := hmerged.column c
  simp only [InRanges, hmem] at hcolumn
  rw [InRanges, ← hcolumn, columnIsHidden, List.any_eq_true]
  simp only [mergeColumns, List.mem_reverse, decide_eq_true_eq]

/-- The ranges of a worksheet are not empty. -/
theorem columnRange_le {column : Element} (h : columnRange column = .ok range) :
    1 ≤ range.1 ∧ range.1 ≤ range.2 := by
  rw [columnRange] at h
  split at h
  · split_ifs at h with hdigits
    obtain ⟨start, -, h⟩ := bind_eq_ok_iff.mp h
    obtain ⟨stop, -, h⟩ := bind_eq_ok_iff.mp h
    rw [ite_error_eq_ok_iff] at h
    obtain rfl := Except.ok.inj h.2
    dsimp only
    omega
  · cases h

theorem hiddenRanges_le (h : hiddenRanges worksheet = .ok ranges) :
    ∀ r ∈ ranges, 1 ≤ r.1 ∧ r.1 ≤ r.2 := by
  intro r hr
  obtain ⟨column, -, hcolumn⟩ := Except.exists_of_mapM_eq_ok h r hr
  exact columnRange_le hcolumn

end merged

/-! ### The numbers of the columns -/

section columns

variable {letters letters' : List Char}

/-- The number of a letter. -/
def letterDigit (c : Char) : ℕ := c.toNat - 'A'.toNat + 1

theorem columnNumber_eq (letters : List Char) : columnNumber letters =
    BijectiveNumeral.value 26 ((letters.map Char.toUpper).map letterDigit) := by
  rw [columnNumber, BijectiveNumeral.value, BijectiveNumeral.valueAfter,
    List.foldl_map (f := letterDigit)]
  rfl

/-- A letter in upper case. -/
theorem toUpper_of_isLetter {c : Char} (h : isLetter c = true) :
    'A'.toNat ≤ c.toUpper.toNat ∧ c.toUpper.toNat ≤ 'Z'.toNat := by
  have hascii : ∀ n < 128, isLetter (Char.ofNat n) = true →
      'A'.toNat ≤ (Char.ofNat n).toUpper.toNat ∧ (Char.ofNat n).toUpper.toNat ≤ 'Z'.toNat := by
    decide
  have hsmall : c.toNat < 128 := by
    have hcases := h
    rw [isLetter, decide_eq_true_eq] at hcases
    rcases hcases with ⟨-, hZ⟩ | ⟨-, hz⟩
    · exact lt_of_le_of_lt (show c.toNat ≤ 'Z'.toNat from hZ) (by decide)
    · exact lt_of_le_of_lt (show c.toNat ≤ 'z'.toNat from hz) (by decide)
  have hc := hascii c.toNat hsmall
  rw [Char.ofNat_toNat] at hc
  exact hc h

/-- Letters that are in order have digits that are in order. -/
theorem letterDigit_lt {c d : Char} (hc : 'A'.toNat ≤ c.toNat) (h : c < d) :
    letterDigit c < letterDigit d := by
  have hlt : c.toNat < d.toNat := h
  rw [letterDigit, letterDigit]
  omega

theorem digits_of_isLetter (h : ∀ c ∈ letters, isLetter c = true) :
    BijectiveNumeral.Digits 26 ((letters.map Char.toUpper).map letterDigit) := by
  intro d hd
  obtain ⟨u, hu, rfl⟩ := List.mem_map.mp hd
  obtain ⟨c, hc, rfl⟩ := List.mem_map.mp hu
  obtain ⟨hlower, hupper⟩ := toUpper_of_isLetter (h c hc)
  rw [letterDigit]
  have hA : 'A'.toNat = 65 := rfl
  have hZ : 'Z'.toNat = 90 := rfl
  omega

/-- Words of letters that are in order have words of digits that are in order. -/
theorem shortlex_map_letterDigit {word word' : List Char} (h : ∀ c ∈ word, 'A'.toNat ≤ c.toNat)
    (hlex : List.Shortlex (· < ·) word word') :
    List.Shortlex (· < ·) (word.map letterDigit) (word'.map letterDigit) := by
  rw [List.shortlex_def] at hlex ⊢
  rw [List.length_map, List.length_map]
  rcases hlex with hshorter | ⟨hlength, hlex⟩
  · exact .inl hshorter
  refine .inr ⟨hlength, ?_⟩
  clear hlength
  induction hlex with
  | nil => exact .nil
  | cons _ ih => exact .cons (ih fun c hc => h c (List.mem_cons_of_mem _ hc))
  | rel hlt => exact .rel (letterDigit_lt (h _ List.mem_cons_self) hlt)

/-- **The numbers** of the columns are in the order of the columns: a shorter name first, and names
of one length by their letters. -/
theorem columnNumber_lt_of_shortlex (h : ∀ c ∈ letters, isLetter c = true)
    (h' : ∀ c ∈ letters', isLetter c = true)
    (hlex : List.Shortlex (· < ·) (letters.map Char.toUpper) (letters'.map Char.toUpper)) :
    columnNumber letters < columnNumber letters' := by
  rw [columnNumber_eq, columnNumber_eq]
  refine BijectiveNumeral.value_lt_of_shortlex (digits_of_isLetter h) (digits_of_isLetter h')
    (shortlex_map_letterDigit (fun u hu => ?_) hlex)
  obtain ⟨c, hc, rfl⟩ := List.mem_map.mp hu
  exact (toUpper_of_isLetter (h c hc)).1

theorem columnNumber_lt_iff (h : ∀ c ∈ letters, isLetter c = true)
    (h' : ∀ c ∈ letters', isLetter c = true) : columnNumber letters < columnNumber letters' ↔
      List.Shortlex (· < ·) (letters.map Char.toUpper) (letters'.map Char.toUpper) := by
  refine ⟨fun hlt => ?_, columnNumber_lt_of_shortlex h h'⟩
  by_contra hnot
  by_cases hreverse : List.Shortlex (· < ·) (letters'.map Char.toUpper) (letters.map Char.toUpper)
  · exact absurd (columnNumber_lt_of_shortlex h' h hreverse) (Nat.not_lt.mpr hlt.le)
  · have heq := (inferInstance : Std.Trichotomous (List.Shortlex (α := Char) (· < ·))).trichotomous
      _ _ hnot hreverse
    rw [columnNumber_eq, columnNumber_eq, heq] at hlt
    exact Nat.lt_irrefl _ hlt

theorem columnNumber_inj (h : ∀ c ∈ letters, isLetter c = true)
    (h' : ∀ c ∈ letters', isLetter c = true) : columnNumber letters = columnNumber letters' ↔
      letters.map Char.toUpper = letters'.map Char.toUpper := by
  refine ⟨fun heq => ?_, fun heq => by rw [columnNumber_eq, columnNumber_eq, heq]⟩
  refine (inferInstance : Std.Trichotomous (List.Shortlex (α := Char) (· < ·))).trichotomous
    _ _ (fun hlex => ?_) fun hlex => ?_
  · exact Nat.lt_irrefl _ (heq ▸ columnNumber_lt_of_shortlex h h' hlex)
  · exact Nat.lt_irrefl _ (heq ▸ columnNumber_lt_of_shortlex h' h hlex)

/-- The letters of a reference. -/
theorem isLetter_of_referenceLetters {reference : List Char}
    (h : referenceLetters reference = some letters) : ∀ c ∈ letters, isLetter c = true := by
  rw [referenceLetters] at h
  split at h
  · cases h
  · split_ifs at h
    rw [← Option.some.inj h]
    exact fun c hc => List.mem_takeWhile_imp hc

end columns

/-- **Columns**: the hidden ranges of a worksheet are merged to normal ranges that hold the same
columns, and the number of a column tells its letters, up to case, and their order. -/
theorem xlsxColumns_normal :
    (∀ ranges : List ColumnRange, (∀ r ∈ ranges, r.1 ≤ r.2) →
      NormalRanges (mergeColumns ranges) ∧
        ∀ c, columnIsHidden c (mergeColumns ranges) = true ↔ InRanges c ranges) ∧
    (∀ worksheet merged, xlsxHiddenColumns worksheet = .ok merged → ∃ ranges,
      hiddenRanges worksheet = .ok ranges ∧ merged = mergeColumns ranges ∧
        ∀ r ∈ ranges, 1 ≤ r.1 ∧ r.1 ≤ r.2) ∧
    (∀ reference reference' letters letters' n n', xlsxColumnIndex reference = .ok n →
      xlsxColumnIndex reference' = .ok n' → referenceLetters reference.toList = some letters →
      referenceLetters reference'.toList = some letters' →
      (n = n' ↔ letters.map Char.toUpper = letters'.map Char.toUpper) ∧
        (n < n' ↔ List.Shortlex (· < ·) (letters.map Char.toUpper)
          (letters'.map Char.toUpper))) := by
  refine ⟨fun ranges hranges => mergeColumns_normal hranges, fun worksheet merged h => ?_, ?_⟩
  · obtain ⟨ranges, hranges, heq⟩ := bind_eq_ok_iff.mp h
    exact ⟨ranges, hranges, (Except.ok.inj heq).symm, hiddenRanges_le hranges⟩
  · intro reference reference' letters letters' n n' hn hn' hletters hletters'
    rw [xlsxColumnIndex, hletters] at hn
    rw [xlsxColumnIndex, hletters'] at hn'
    rw [← Except.ok.inj hn, ← Except.ok.inj hn']
    exact ⟨columnNumber_inj (isLetter_of_referenceLetters hletters)
        (isLetter_of_referenceLetters hletters'),
      columnNumber_lt_iff (isLetter_of_referenceLetters hletters)
        (isLetter_of_referenceLetters hletters')⟩

/-- A `col` that is switched off. -/
def hiddenCol (id : ℕ) (lower upper : String) : Element :=
  .mk id ⟨"", "col"⟩ [(⟨"", "hidden"⟩, "1"), (⟨"", "min"⟩, lower), (⟨"", "max"⟩, upper)] none []

/-- A worksheet with three ranges of hidden columns, out of order and two of them adjacent. -/
def threeRanges : Element :=
  .mk 0 ⟨"", "worksheet"⟩ [] none [hiddenCol 1 "7" "9", hiddenCol 2 "1" "2", hiddenCol 3 "3" "5"]

theorem xlsxColumns_normal_three :
    (NormalRanges (mergeColumns [(7, 9), (1, 2), (3, 5)]) ∧
      ∀ c, columnIsHidden c (mergeColumns [(7, 9), (1, 2), (3, 5)]) = true ↔
        InRanges c [(7, 9), (1, 2), (3, 5)]) ∧
    (∃ ranges, hiddenRanges threeRanges = .ok ranges ∧ [(1, 5), (7, 9)] = mergeColumns ranges ∧
      ∀ r ∈ ranges, 1 ≤ r.1 ∧ r.1 ≤ r.2) ∧
    (28 < 54 ↔ List.Shortlex (· < ·) (['a', 'B'].map Char.toUpper) (['B', 'b'].map Char.toUpper)) :=
  ⟨xlsxColumns_normal.1 [(7, 9), (1, 2), (3, 5)] (by decide),
    xlsxColumns_normal.2.1 threeRanges [(1, 5), (7, 9)] rfl,
    (xlsxColumns_normal.2.2 "aB12" "Bb1" ['a', 'B'] ['B', 'b'] 28 54 rfl rfl rfl rfl).2⟩

end IChat.Files
