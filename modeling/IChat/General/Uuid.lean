import Mathlib.Algebra.GroupWithZero.Nat
import IChat.General.Text

/-!
# UUIDs and their texts

A UUID is its 128 bits. `toStr` is `str(uuid)`, `parse?` is `UUID(text)`: it drops the prefixes
`urn:` and `uuid:`, braces and hyphens, and reads 32 hexadecimal digits.

`parse?_toStr` says that the text of a UUID is read back as the UUID.
-/

/-- A UUID. -/
structure Uuid where
  int : Fin (2 ^ 128)
  deriving DecidableEq

namespace Uuid

instance neZeroRange : NeZero (2 ^ 128) := ⟨(Nat.two_pow_pos 128).ne'⟩

/-- `UUID(int=0)`. -/
def zero : Uuid := ⟨0⟩

/-- The digits of a number, to a fixed width. -/
def hexDigits : ℕ → ℕ → List Char
  | 0, _ => []
  | width + 1, n => hexDigits width (n / 16) ++ [Text.hexDigit (n % 16)]

/-- The value of a hexadecimal digit. -/
def hexValue (c : Char) : Option ℕ :=
  if '0' ≤ c ∧ c ≤ '9' then some (c.toNat - '0'.toNat)
  else if 'a' ≤ c ∧ c ≤ 'f' then some (c.toNat - 'a'.toNat + 10)
  else if 'A' ≤ c ∧ c ≤ 'F' then some (c.toNat - 'A'.toNat + 10)
  else none

/-- The number that a text of digits writes. -/
def ofHexDigits (digits : List Char) : Option ℕ :=
  digits.foldl (fun n c => n.bind fun n => (hexValue c).map (16 * n + ·)) (some 0)

/-- The digits in groups of 8, 4, 4, 4 and 12. -/
def grouped (hex : List Char) : List Char :=
  hex.take 8 ++ '-' :: ((hex.drop 8).take 4 ++ '-' :: ((hex.drop 12).take 4 ++ '-' ::
    ((hex.drop 16).take 4 ++ '-' :: hex.drop 20)))

/-- `str(uuid)`. -/
def toStr (u : Uuid) : String := String.ofList (grouped (hexDigits 32 u.int))

/-- `UUID(text)`; the exception is `none`. -/
def parse? (text : String) : Option Uuid :=
  let hex := Text.remove ['u', 'u', 'i', 'd', ':'] (Text.remove ['u', 'r', 'n', ':'] text.toList)
  let digits := (Text.stripChars (fun c => c = Char.ofNat 123 ∨ c = Char.ofNat 125) hex).filter
    (· ≠ '-')
  if digits.length = 32 then
    (ofHexDigits digits).bind fun n => if h : n < 2 ^ 128 then some ⟨n, h⟩ else none
  else none

theorem length_hexDigits (width n : ℕ) : (hexDigits width n).length = width := by
  induction width generalizing n with
  | zero => rfl
  | succ width ih => rw [hexDigits, List.length_append, ih, List.length_singleton]

theorem hexValue_hexDigit : ∀ d : Fin 16, hexValue (Text.hexDigit d) = some d := by decide

/-- The digits are written in `0-9a-f`. -/
theorem exists_hexDigit_of_mem {width n : ℕ} {c : Char} (h : c ∈ hexDigits width n) :
    ∃ d : Fin 16, c = Text.hexDigit d := by
  induction width generalizing n with
  | zero => cases h
  | succ width ih =>
    rw [hexDigits, List.mem_append, List.mem_singleton] at h
    obtain hhigh | rfl := h
    · exact ih hhigh
    · exact ⟨⟨n % 16, Nat.mod_lt _ (by decide)⟩, rfl⟩

/-- The digits of a number are read back. -/
theorem ofHexDigits_hexDigits {width n : ℕ} (h : n < 16 ^ width) :
    ofHexDigits (hexDigits width n) = some n := by
  induction width generalizing n with
  | zero =>
    obtain rfl : n = 0 := by omega
    rfl
  | succ width ih =>
    have hhigh : n / 16 < 16 ^ width := by
      rw [Nat.pow_succ] at h
      omega
    have hlow : hexValue (Text.hexDigit (n % 16)) = some (n % 16) :=
      hexValue_hexDigit ⟨n % 16, Nat.mod_lt _ (by decide)⟩
    have hprefix := ih hhigh
    rw [ofHexDigits] at hprefix ⊢
    rw [hexDigits, List.foldl_append, hprefix, List.foldl_cons, List.foldl_nil, Option.bind_some,
      hlow, Option.map_some]
    congr 1
    omega

theorem mem_grouped {hex : List Char} {c : Char} (h : c ∈ grouped hex) : c = '-' ∨ c ∈ hex := by
  simp only [grouped, List.mem_append, List.mem_cons] at h
  obtain h | rfl | h | rfl | h | rfl | h | rfl | h := h
  · exact .inr (List.mem_of_mem_take h)
  · exact .inl rfl
  · exact .inr (List.mem_of_mem_drop (List.mem_of_mem_take h))
  · exact .inl rfl
  · exact .inr (List.mem_of_mem_drop (List.mem_of_mem_take h))
  · exact .inl rfl
  · exact .inr (List.mem_of_mem_drop (List.mem_of_mem_take h))
  · exact .inl rfl
  · exact .inr (List.mem_of_mem_drop h)

/-- Without the hyphens the groups are the digits. -/
theorem filter_grouped {hex : List Char} (h : '-' ∉ hex) :
    (grouped hex).filter (· ≠ '-') = hex := by
  have hkeep : ∀ part : List Char, part.Sublist hex → part.filter (· ≠ '-') = part := by
    intro part hpart
    refine List.filter_eq_self.mpr fun c hc => ?_
    have hne : c ≠ '-' := by
      rintro rfl
      exact h (hpart.subset hc)
    simpa using hne
  have hgroup : ∀ k l, ((hex.drop k).take l).filter (· ≠ '-') = (hex.drop k).take l := fun k l =>
    hkeep _ ((List.take_sublist _ _).trans (List.drop_sublist _ _))
  have hdrop : ∀ k l, (hex.drop k).take l ++ hex.drop (k + l) = hex.drop k := by
    intro k l
    rw [← List.drop_drop, List.take_append_drop]
  simp only [grouped, List.filter_append, List.filter_cons, hgroup,
    hkeep _ (List.take_sublist 8 hex), hkeep _ (List.drop_sublist 20 hex), ne_eq, not_true_eq_false,
    decide_false, Bool.false_eq_true, if_false]
  rw [hdrop 16 4, hdrop 12 4, hdrop 8 4, List.take_append_drop]

/-- The text of a UUID consists of digits and hyphens. -/
theorem mem_toStr {u : Uuid} {c : Char} (h : c ∈ u.toStr.toList) :
    c = '-' ∨ ∃ d : Fin 16, c = Text.hexDigit d := by
  rw [toStr, String.toList_ofList] at h
  obtain rfl | hc := mem_grouped h
  · exact .inl rfl
  · exact .inr (exists_hexDigit_of_mem hc)

theorem length_toStr (u : Uuid) : u.toStr.toList.length = 36 := by
  rw [toStr, String.toList_ofList, grouped]
  simp only [List.length_append, List.length_cons, List.length_take, List.length_drop,
    length_hexDigits]
  decide

/-- The text of a UUID is read back as the UUID. -/
theorem parse?_toStr (u : Uuid) : parse? u.toStr = some u := by
  have hchars : ∀ c ∈ grouped (hexDigits 32 u.int), c = '-' ∨ ∃ d : Fin 16, c = Text.hexDigit d :=
    fun c hc => mem_toStr (by rwa [toStr, String.toList_ofList])
  have hdigit : ∀ d : Fin 16, Text.hexDigit d ≠ 'u' ∧ Text.hexDigit d ≠ '-' ∧
      Text.hexDigit d ≠ Char.ofNat 123 ∧ Text.hexDigit d ≠ Char.ofNat 125 := by decide
  have hno : 'u' ∉ grouped (hexDigits 32 u.int) := by
    intro hu
    obtain h | ⟨d, h⟩ := hchars _ hu
    · exact absurd h (by decide)
    · exact (hdigit d).1 h.symm
  have hhyphen : '-' ∉ hexDigits 32 u.int := by
    intro h
    obtain ⟨d, hd⟩ := exists_hexDigit_of_mem h
    exact (hdigit d).2.1 hd.symm
  have hstrip : ∀ c ∈ grouped (hexDigits 32 u.int),
      decide (c = Char.ofNat 123 ∨ c = Char.ofNat 125) = false := by
    intro c hc
    obtain rfl | ⟨d, rfl⟩ := hchars c hc
    · decide
    · simpa using (hdigit d).2.2
  have hlt : (u.int : ℕ) < 2 ^ 128 := u.int.isLt
  have hread : ofHexDigits (hexDigits 32 u.int) = some (u.int : ℕ) := ofHexDigits_hexDigits hlt
  rw [parse?, toStr, String.toList_ofList, Text.remove_of_notMem hno, Text.remove_of_notMem hno,
    Text.stripChars_of_forall hstrip, filter_grouped hhyphen]
  simp only [length_hexDigits, if_true, hread, Option.bind_some,
    dif_pos hlt]

end Uuid
