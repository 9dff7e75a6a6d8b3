import IChat.General.Binary64
import IChat.General.Except

/-!
# The download of a staged upload in ranges

`_get_staging_in_parallel_ranges` cuts an object into byte ranges, one for each worker, and joins
what is read of them. The length of a range is a quotient of the size, which Python computes in
floating point.
-/

namespace IChat.Files

inductive DownloadError
  | overflow
  | storageIntegrity
  deriving DecidableEq

/-- An inclusive range of bytes. -/
abbrev ByteRange := ℕ × ℕ

/-- The ranges of a length. -/
def chunkRanges (chunkSize size : ℕ) : List ByteRange :=
  (List.range ((size + chunkSize - 1) / chunkSize)).map fun i =>
    (i * chunkSize, min (i * chunkSize + chunkSize - 1) (size - 1))

/-- The ranges for a size and a number of workers. -/
def downloadRanges (maxConcurrency expectedSizeBytes : ℕ) : Except DownloadError (List ByteRange) :=
  match Binary64.divide expectedSizeBytes (min maxConcurrency expectedSizeBytes) with
  | none => .error .overflow
  | some quotient => .ok (chunkRanges quotient.ceil expectedSizeBytes)

/-- `read_range`. -/
def readRange (getObject : ByteRange → List UInt8) (byteRange : ByteRange) :
    Except DownloadError (List UInt8) :=
  let content := getObject byteRange
  if content.length ≠ byteRange.2 - byteRange.1 + 1 then .error .storageIntegrity else .ok content

/-- `_get_staging_in_parallel_ranges`. -/
def getStagingInParallelRanges (getObject : ByteRange → List UInt8)
    (maxConcurrency expectedSizeBytes : ℕ) : Except DownloadError (List UInt8) := do
  let ranges ← downloadRanges maxConcurrency expectedSizeBytes
  let contents ← ranges.mapM (readRange getObject)
  return contents.flatten

/-- The bytes of an object in a range. -/
def slice (object : List UInt8) (byteRange : ByteRange) : List UInt8 :=
  (object.drop byteRange.1).take (byteRange.2 - byteRange.1 + 1)

/-- Ranges that cover an object of this size, each byte once and in order. -/
structure Tiles (ranges : List ByteRange) (size : ℕ) : Prop where
  nonempty : ∀ r ∈ ranges, r.1 ≤ r.2
  ordered : ranges.Pairwise fun r s => r.2 < s.1
  covers : ∀ n, (∃ r ∈ ranges, r.1 ≤ n ∧ n ≤ r.2) ↔ n < size

section chunks

variable {chunkSize size : ℕ}

/-- The ranges begin below the size. -/
theorem mem_chunkRanges (hchunk : 0 < chunkSize) {r : ByteRange} :
    r ∈ chunkRanges chunkSize size ↔ ∃ i, i * chunkSize < size ∧
      r = (i * chunkSize, min (i * chunkSize + chunkSize - 1) (size - 1)) := by
  rw [chunkRanges, List.mem_map]
  refine exists_congr fun i => ?_
  rw [List.mem_range, Nat.lt_div_iff_mul_lt hchunk, eq_comm (b := r)]
  refine and_congr_left fun _ => ?_
  omega

/-- **The ranges** of any length tile the object. -/
theorem tiles_chunkRanges (hchunk : 0 < chunkSize) (hsize : 0 < size) :
    Tiles (chunkRanges chunkSize size) size where
  nonempty r hr := by
    obtain ⟨i, hi, rfl⟩ := (mem_chunkRanges hchunk).mp hr
    dsimp only
    omega
  ordered := by
    refine List.pairwise_map.mpr (List.pairwise_lt_range.imp fun {i j} hij => ?_)
    have hmul : (i + 1) * chunkSize ≤ j * chunkSize := Nat.mul_le_mul_right _ hij
    rw [Nat.add_mul, Nat.one_mul] at hmul
    dsimp only
    omega
  covers n := by
    constructor
    · rintro ⟨r, hr, -, hn⟩
      obtain ⟨i, hi, rfl⟩ := (mem_chunkRanges hchunk).mp hr
      dsimp only at hn
      omega
    · intro hn
      have hsplit := Nat.div_add_mod n chunkSize
      have hlt := Nat.mod_lt n hchunk
      rw [Nat.mul_comm] at hsplit
      refine ⟨_, (mem_chunkRanges hchunk).mpr ⟨n / chunkSize, by omega, rfl⟩, ?_, ?_⟩
      · dsimp only
        omega
      · dsimp only
        omega

/-- What is read of the ranges is the object. -/
theorem flatMap_slice_chunkRanges (hchunk : 0 < chunkSize) (hsize : 0 < size)
    {object : List UInt8} (hobject : object.length = size) :
    (chunkRanges chunkSize size).flatMap (slice object) = object := by
  -- the first ranges are a piece of the object from its start
  have hprefix : ∀ n, n ≤ (size + chunkSize - 1) / chunkSize →
      ((List.range n).map fun i =>
        (i * chunkSize, min (i * chunkSize + chunkSize - 1) (size - 1))).flatMap (slice object) =
      object.take (n * chunkSize) := by
    intro n hn
    induction n with
    | zero => rw [Nat.zero_mul]; rfl
    | succ n ih =>
      have hbelow : n * chunkSize < size := by
        rw [Nat.le_div_iff_mul_le hchunk, Nat.add_mul, Nat.one_mul] at hn
        omega
      have hslice : slice object
          (n * chunkSize, min (n * chunkSize + chunkSize - 1) (size - 1)) =
          (object.drop (n * chunkSize)).take chunkSize := by
        rw [slice]
        dsimp only
        by_cases hfull : n * chunkSize + chunkSize ≤ size
        · congr 1
          omega
        · rw [List.take_of_length_le (by rw [List.length_drop]; omega),
            List.take_of_length_le (by rw [List.length_drop]; omega)]
      rw [List.range_succ, List.map_append, List.flatMap_append, ih (by omega), List.map_singleton,
        List.flatMap_singleton, hslice, Nat.add_mul, Nat.one_mul, List.take_add]
  rw [chunkRanges, hprefix _ (Nat.le_refl _)]
  refine List.take_of_length_le ?_
  rw [hobject]
  have hceil := Nat.lt_div_mul_add (a := size + chunkSize - 1) hchunk
  omega

/-- There are at most as many ranges as workers whose ranges reach the end. -/
theorem length_chunkRanges_le (hchunk : 0 < chunkSize) {workers : ℕ}
    (h : size ≤ workers * chunkSize) : (chunkRanges chunkSize size).length ≤ workers := by
  rw [chunkRanges, List.length_map, List.length_range, Nat.div_le_iff_le_mul_add_pred hchunk,
    Nat.mul_comm]
  omega

end chunks

/-- **The download**: the ranges tile the object, and what is read of them is joined to it; up to a
size of 2⁵³ there are no more of them than workers. -/
theorem stagingDownload_tiles {maxConcurrency size : ℕ} (hlimit : 2 ≤ maxConcurrency)
    (hsize : 1 ≤ size) :
    (∀ ranges, downloadRanges maxConcurrency size = .ok ranges → Tiles ranges size ∧
      ∀ (object : List UInt8) (getObject : ByteRange → List UInt8), object.length = size →
        (∀ r ∈ ranges, getObject r = slice object r) →
          getStagingInParallelRanges getObject maxConcurrency size = .ok object) ∧
    (size ≤ 2 ^ 53 → ∃ ranges, downloadRanges maxConcurrency size = .ok ranges ∧
      ranges.length ≤ maxConcurrency) := by
  have hworkers : 0 < min maxConcurrency size := by omega
  have hle : min maxConcurrency size ≤ size := Nat.min_le_right _ _
  constructor
  · intro ranges hranges
    have hdownload := hranges
    rw [downloadRanges] at hranges
    cases hquotient : Binary64.divide size (min maxConcurrency size) with
    | none =>
      rw [hquotient] at hranges
      cases hranges
    | some quotient =>
      rw [hquotient] at hranges
      cases hranges
      have hchunk := Binary64.ceil_pos hworkers hle hquotient
      have htiles := tiles_chunkRanges hchunk hsize
      refine ⟨htiles, fun object getObject hobject hread => ?_⟩
      have hcontents : (chunkRanges quotient.ceil size).mapM (readRange getObject) =
          .ok ((chunkRanges quotient.ceil size).map (slice object)) := by
        refine Except.mapM_eq_ok_map fun r hr => ?_
        have hlast : r.2 < size := (htiles.covers r.2).mp
          ⟨r, hr, htiles.nonempty r hr, Nat.le_refl _⟩
        have hlength : (slice object r).length = r.2 - r.1 + 1 := by
          have hfirst := htiles.nonempty r hr
          rw [slice, List.length_take, List.length_drop, hobject]
          omega
        rw [readRange, hread r hr]
        exact if_neg (not_not.mpr hlength)
      rw [getStagingInParallelRanges, hdownload, ok_bind, hcontents, ok_bind]
      exact congrArg Except.ok (flatMap_slice_chunkRanges hchunk hsize hobject)
  · intro hsmall
    obtain ⟨quotient, hquotient, hceil⟩ := Binary64.ceil_divide hworkers hle hsmall
    have hchunk := Binary64.ceil_pos hworkers hle hquotient
    refine ⟨chunkRanges quotient.ceil size, by rw [downloadRanges, hquotient], ?_⟩
    refine (length_chunkRanges_le hchunk ?_).trans (Nat.min_le_left maxConcurrency size)
    have hupper := Nat.lt_div_mul_add (a := size + min maxConcurrency size - 1) hworkers
    rw [hceil, Nat.mul_comm]
    omega

theorem stagingDownload_tiles_three :
    (∀ ranges, downloadRanges 2 3 = .ok ranges → Tiles ranges 3 ∧
      ∀ (object : List UInt8) (getObject : ByteRange → List UInt8), object.length = 3 →
        (∀ r ∈ ranges, getObject r = slice object r) →
          getStagingInParallelRanges getObject 2 3 = .ok object) ∧
    (3 ≤ 2 ^ 53 → ∃ ranges, downloadRanges 2 3 = .ok ranges ∧ ranges.length ≤ 2) :=
  stagingDownload_tiles (by decide) (by decide)

/-- One byte above 2⁵³ the quotient by two is rounded down, and a third range is left over. -/
theorem stagingDownload_threeRanges :
    ∃ ranges, downloadRanges 2 (2 ^ 53 + 1) = .ok ranges ∧ ranges.length = 3 := by
  have hlog : Nat.log 2 ((2 ^ 53 + 1) / min 2 (2 ^ 53 + 1)) = 52 := by
    rw [show (2 ^ 53 + 1) / min 2 (2 ^ 53 + 1) = 2 ^ 52 by decide]
    exact Nat.log_pow Nat.one_lt_two 52
  have hround : Binary64.roundDiv ((2 ^ 53 + 1) * 2 ^ (52 - 52)) (min 2 (2 ^ 53 + 1)) = 2 ^ 52 := by
    decide
  have hceil : Binary64.Finite.ceil ⟨2 ^ 52, -((52 - 52 : ℕ) : ℤ)⟩ = 2 ^ 52 := by decide
  have hrange : 2 ^ 52 < 2 ^ Binary64.rangeBits :=
    Nat.pow_lt_pow_right Nat.one_lt_two (by have := Binary64.lt_rangeBits; omega)
  have hdivide : Binary64.divide (2 ^ 53 + 1) (min 2 (2 ^ 53 + 1)) =
      some ⟨2 ^ 52, -((52 - 52 : ℕ) : ℤ)⟩ := by
    rw [Binary64.divide_eq]
    dsimp only
    rw [hlog, if_pos (Nat.le_refl 52), hround, hceil, if_pos hrange]
  refine ⟨chunkRanges (2 ^ 52) (2 ^ 53 + 1), ?_, by decide⟩
  rw [downloadRanges, hdivide]
  dsimp only
  rw [hceil]

end IChat.Files
