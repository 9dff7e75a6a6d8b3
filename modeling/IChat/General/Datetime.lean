import Mathlib.Algebra.Group.Nat.Defs
import Mathlib.Data.List.Basic
import Mathlib.Order.Lattice
import Mathlib.Order.Nat
import Mathlib.Order.RelClasses
import IChat.General.Text

/-!
# Datetimes in UTC

The aware datetimes that a `timestamptz` column is read as, with `isoformat` and `fromisoformat`.

* `Datetime.fromisoformat_isoformat`: what is written is read back;
* datetimes are ordered by the time at which they are, and no sequence of them decreases forever.
-/

/-- The days of a month. -/
def daysInMonth (year month : ℕ) : ℕ :=
  if month = 2 then
    if year % 4 = 0 ∧ (year % 100 ≠ 0 ∨ year % 400 = 0) then 29 else 28
  else if month ∈ [4, 6, 9, 11] then 30 else 31

/-- A `datetime` whose `tzinfo` is UTC. -/
structure Datetime where
  year : ℕ
  month : ℕ
  day : ℕ
  hour : ℕ
  minute : ℕ
  second : ℕ
  microsecond : ℕ
  hyear : 1 ≤ year ∧ year ≤ 9999
  hmonth : 1 ≤ month ∧ month ≤ 12
  hday : 1 ≤ day ∧ day ≤ daysInMonth year month
  htime : hour < 24 ∧ minute < 60 ∧ second < 60 ∧ microsecond < 1000000
  deriving DecidableEq

namespace Datetime

theorem daysInMonth_le (year month : ℕ) : daysInMonth year month ≤ 31 := by
  rw [daysInMonth]
  split_ifs <;> decide

/-! ### Order -/

/-- A number that grows with the time. -/
def stamp (d : Datetime) : ℕ :=
  ((((((d.year * 13 + d.month) * 32 + d.day) * 24 + d.hour) * 60 + d.minute) * 60 + d.second) *
    1000000 + d.microsecond)

/-- The last digit of a number, and what stands before it. -/
theorem radix_inj {k a b c d : ℕ} (hb : b < k) (hd : d < k) (h : a * k + b = c * k + d) :
    a = c ∧ b = d := by
  have hquotient : (a * k + b) / k = (c * k + d) / k := by rw [h]
  have hrest : (a * k + b) % k = (c * k + d) % k := by rw [h]
  have hk : 0 < k := by omega
  rw [Nat.mul_comm a, Nat.mul_comm c, Nat.mul_add_div hk, Nat.mul_add_div hk,
    Nat.div_eq_of_lt hb, Nat.div_eq_of_lt hd] at hquotient
  rw [Nat.mul_comm a, Nat.mul_comm c, Nat.mul_add_mod, Nat.mul_add_mod, Nat.mod_eq_of_lt hb,
    Nat.mod_eq_of_lt hd] at hrest
  exact ⟨hquotient, hrest⟩

theorem stamp_injective : Function.Injective stamp := by
  intro a b h
  have hdayA := daysInMonth_le a.year a.month
  have hdayB := daysInMonth_le b.year b.month
  have hmonthA := a.hmonth
  have hmonthB := b.hmonth
  have hA := a.hday
  have hB := b.hday
  obtain ⟨h, hmicrosecond⟩ := radix_inj a.htime.2.2.2 b.htime.2.2.2 h
  obtain ⟨h, hsecond⟩ := radix_inj a.htime.2.2.1 b.htime.2.2.1 h
  obtain ⟨h, hminute⟩ := radix_inj a.htime.2.1 b.htime.2.1 h
  obtain ⟨h, hhour⟩ := radix_inj a.htime.1 b.htime.1 h
  obtain ⟨h, hday⟩ := radix_inj (by omega) (by omega) h
  obtain ⟨hyear, hmonth⟩ := radix_inj (by omega) (by omega) h
  cases a
  cases b
  congr

instance : LinearOrder Datetime := LinearOrder.lift' stamp stamp_injective

instance : WellFoundedLT Datetime := ⟨InvImage.wf stamp Nat.lt_wfRel.wf⟩

/-! ### Texts -/

/-- The digits of a number, to a fixed width. -/
def digits : ℕ → ℕ → List Char
  | 0, _ => []
  | width + 1, n => digits width (n / 10) ++ [Nat.digitChar (n % 10)]

/-- `datetime.isoformat()`. -/
def isoformat (d : Datetime) : String :=
  String.ofList (digits 4 d.year ++ '-' :: (digits 2 d.month ++ '-' :: (digits 2 d.day ++ 'T' ::
    (digits 2 d.hour ++ ':' :: (digits 2 d.minute ++ ':' :: (digits 2 d.second ++
      ((if d.microsecond = 0 then [] else '.' :: digits 6 d.microsecond) ++ "+00:00".toList)))))))

/-- Read a number of a fixed width, and what stands behind it. -/
def readNumber (width : ℕ) (s : List Char) : Option (ℕ × List Char) :=
  let number := s.take width
  if number.length = width ∧ number.all Char.isDigit then
    some (Nat.ofDigitChars 10 number 0, s.drop width)
  else none

/-- Read the fraction of a second, if there is one. -/
def readFraction : List Char → Option (ℕ × List Char)
  | '.' :: s => readNumber 6 s
  | s => some (0, s)

/-- `datetime(...)`; the exception is `none`. -/
def make? (year month day hour minute second microsecond : ℕ) : Option Datetime :=
  if h : (1 ≤ year ∧ year ≤ 9999) ∧ (1 ≤ month ∧ month ≤ 12) ∧
      (1 ≤ day ∧ day ≤ daysInMonth year month) ∧
      hour < 24 ∧ minute < 60 ∧ second < 60 ∧ microsecond < 1000000 then
    some ⟨year, month, day, hour, minute, second, microsecond, h.1, h.2.1, h.2.2.1, h.2.2.2⟩
  else none

/-- Read the form that `isoformat` writes. -/
def readIso (s : List Char) : Option Datetime := do
  let (year, s) ← readNumber 4 s
  let s ← Text.readChar '-' s
  let (month, s) ← readNumber 2 s
  let s ← Text.readChar '-' s
  let (day, s) ← readNumber 2 s
  let s ← Text.readChar 'T' s
  let (hour, s) ← readNumber 2 s
  let s ← Text.readChar ':' s
  let (minute, s) ← readNumber 2 s
  let s ← Text.readChar ':' s
  let (second, s) ← readNumber 2 s
  let (microsecond, s) ← readFraction s
  if s = "+00:00".toList then make? year month day hour minute second microsecond else none

/-- `datetime.fromisoformat`, of an aware datetime: the form that `isoformat` writes, and the others
that it reads. -/
def fromisoformat (other : String → Option Datetime) (text : String) : Option Datetime :=
  match readIso text.toList with
  | some d => some d
  | none => other text

theorem length_digits (width n : ℕ) : (digits width n).length = width := by
  induction width generalizing n with
  | zero => rfl
  | succ width ih => rw [digits, List.length_append, ih, List.length_singleton]

theorem digitChar_fin : ∀ d : Fin 10, (Nat.digitChar d).isDigit = true ∧
    (Nat.digitChar d).toNat - '0'.toNat = d.val := by decide

theorem isDigit_of_mem_digits {width n : ℕ} {c : Char} (h : c ∈ digits width n) :
    c.isDigit = true := by
  induction width generalizing n with
  | zero => cases h
  | succ width ih =>
    rw [digits, List.mem_append, List.mem_singleton] at h
    obtain hhigh | rfl := h
    · exact ih hhigh
    · exact (digitChar_fin ⟨n % 10, Nat.mod_lt _ (by decide)⟩).1

theorem ofDigitChars_digits {width n : ℕ} (h : n < 10 ^ width) :
    Nat.ofDigitChars 10 (digits width n) 0 = n := by
  induction width generalizing n with
  | zero =>
    obtain rfl : n = 0 := by omega
    rfl
  | succ width ih =>
    have hhigh : n / 10 < 10 ^ width := by
      rw [Nat.pow_succ] at h
      omega
    have hlow : (Nat.digitChar (n % 10)).toNat - '0'.toNat = n % 10 :=
      (digitChar_fin ⟨n % 10, Nat.mod_lt _ (by decide)⟩).2
    rw [digits, Nat.ofDigitChars_append, ih hhigh, Nat.ofDigitChars_cons, Nat.ofDigitChars_nil,
      hlow]
    omega

/-- A number is read back. -/
theorem readNumber_digits {width n : ℕ} (h : n < 10 ^ width) (s : List Char) :
    readNumber width (digits width n ++ s) = some (n, s) := by
  have htake : (digits width n ++ s).take width = digits width n :=
    List.take_left' (length_digits width n)
  have hdrop : (digits width n ++ s).drop width = s := List.drop_left' (length_digits width n)
  rw [readNumber, htake, hdrop, ofDigitChars_digits h]
  refine if_pos ⟨length_digits width n, ?_⟩
  exact List.all_eq_true.mpr fun c hc => isDigit_of_mem_digits hc

/-- The fraction is read back. -/
theorem readFraction_digits {n : ℕ} (h : n < 1000000) :
    readFraction ((if n = 0 then [] else '.' :: digits 6 n) ++ "+00:00".toList) =
      some (n, "+00:00".toList) := by
  split
  · rename_i hzero
    rw [hzero]
    rfl
  · exact readNumber_digits h _

/-- **Round trip.** A datetime is read back from its text. -/
theorem fromisoformat_isoformat (other : String → Option Datetime) (d : Datetime) :
    fromisoformat other d.isoformat = some d := by
  have hday := daysInMonth_le d.year d.month
  have hyear : d.year < 10 ^ 4 := by have := d.hyear; omega
  have hmonth : d.month < 10 ^ 2 := by have := d.hmonth; omega
  have hdays : d.day < 10 ^ 2 := by have := d.hday; omega
  have hhour : d.hour < 10 ^ 2 := by have := d.htime; omega
  have hminute : d.minute < 10 ^ 2 := by have := d.htime; omega
  have hsecond : d.second < 10 ^ 2 := by have := d.htime; omega
  have hread : readIso d.isoformat.toList = some d := by
    rw [isoformat, String.toList_ofList, readIso]
    simp only [readNumber_digits hyear, readNumber_digits hmonth, readNumber_digits hdays,
      readNumber_digits hhour, readNumber_digits hminute, readNumber_digits hsecond,
      Text.readChar_cons, readFraction_digits d.htime.2.2.2, Option.bind_eq_bind, Option.bind_some]
    rw [if_pos trivial, make?, dif_pos ⟨d.hyear, d.hmonth, d.hday, d.htime⟩]
  rw [fromisoformat, hread]

/-- The text consists of digits and signs. -/
theorem isoformat_plain (d : Datetime) :
    ∀ c ∈ d.isoformat.toList, c.isDigit = true ∨ c ∈ ['-', 'T', ':', '.', '+'] := by
  have hdigits : ∀ width n, ∀ c ∈ digits width n,
      c.isDigit = true ∨ c ∈ ['-', 'T', ':', '.', '+'] :=
    fun width n c hc => .inl (isDigit_of_mem_digits hc)
  have hfraction : ∀ c ∈ if d.microsecond = 0 then [] else '.' :: digits 6 d.microsecond,
      c.isDigit = true ∨ c ∈ ['-', 'T', ':', '.', '+'] := by
    split
    · exact fun _ hc => nomatch hc
    · exact List.forall_mem_cons.mpr ⟨.inr (by decide), hdigits _ _⟩
  have hzone : ∀ c ∈ "+00:00".toList, c.isDigit = true ∨ c ∈ ['-', 'T', ':', '.', '+'] :=
    Text.forall_mem_of_all (by decide)
  rw [isoformat, String.toList_ofList]
  simp only [List.forall_mem_append, List.forall_mem_cons]
  exact ⟨hdigits _ _, .inr (by decide), hdigits _ _, .inr (by decide), hdigits _ _,
    .inr (by decide), hdigits _ _, .inr (by decide), hdigits _ _, .inr (by decide), hdigits _ _,
    hfraction, hzone⟩

theorem length_isoformat (d : Datetime) : d.isoformat.toList.length ≤ 32 := by
  rw [isoformat, String.toList_ofList]
  simp only [List.length_append, List.length_cons, length_digits]
  split
  · decide
  · rw [List.length_cons, length_digits]
    decide

end Datetime
