import Mathlib.Data.List.Basic
import Mathlib.Data.Char

/-!
# UTF-16

A text is a list of code points, and its UTF-16 form gives a code point above `0xffff` two units.
Offsets into that form are what a browser counts in. The form determines the text, and cutting it
at the offset of a character cuts the text there.
-/

namespace Utf16

/-- The code units of one character. -/
def units (c : Char) : List ℕ :=
  if c.toNat < 0x10000 then [c.toNat]
  else [0xD800 + (c.toNat - 0x10000) / 0x400, 0xDC00 + (c.toNat - 0x10000) % 0x400]

/-- The code units of a text. -/
def encode (s : List Char) : List ℕ := s.flatMap units

/-- The number of code units of a text. -/
def length (s : List Char) : ℕ := (encode s).length

/-- The code units between two offsets, as `slice` takes them from a browser's text. -/
def slice (s : List Char) (start stop : ℕ) : List ℕ := ((encode s).take stop).drop start

@[simp] theorem encode_nil : encode [] = [] := rfl

@[simp] theorem encode_cons (c : Char) (s : List Char) : encode (c :: s) = units c ++ encode s :=
  rfl

@[simp] theorem encode_append (s t : List Char) : encode (s ++ t) = encode s ++ encode t := by
  rw [encode, List.flatMap_append]
  rfl

@[simp] theorem length_nil : length [] = 0 := rfl

@[simp] theorem length_append (s t : List Char) : length (s ++ t) = length s + length t := by
  simp [length]

theorem length_singleton (c : Char) : length [c] = if 0x10000 ≤ c.toNat then 2 else 1 := by
  simp only [length, encode_cons, encode_nil, List.append_nil, units]
  split <;> split <;> first | rfl | omega

theorem length_pos {s : List Char} (h : s ≠ []) : 0 < length s := by
  obtain ⟨c, s, rfl⟩ := List.exists_cons_of_ne_nil h
  rw [← List.singleton_append, length_append, length_singleton]
  split <;> omega

/-- The units are the characters, and one more for each that lies above `0xffff`. -/
theorem length_eq_add_countP (s : List Char) :
    length s = s.length + s.countP fun c => decide (0x10000 ≤ c.toNat) := by
  induction s with
  | nil => rfl
  | cons c s ih =>
    rw [← List.singleton_append, length_append, length_singleton, ih, List.singleton_append,
      List.length_cons, List.countP_cons]
    simp only [decide_eq_true_eq]
    split <;> omega

/-- What stands between two parts of a text stands between their offsets. -/
theorem slice_append (before s after : List Char) :
    slice (before ++ s ++ after) (length before) (length (before ++ s)) = encode s := by
  have htake : (encode (before ++ s ++ after)).take (length (before ++ s)) =
      encode before ++ encode s := by
    rw [encode_append (before ++ s), length, List.take_left, encode_append]
  rw [slice, htake, length, List.drop_left]

/-- A text starts with the character its units start with. -/
theorem units_append_inj {c d : Char} {us vs : List ℕ} (h : units c ++ us = units d ++ vs) :
    c = d ∧ us = vs := by
  have hvalid : ∀ e : Char, e.toNat < 0xD800 ∨ 0xDFFF < e.toNat ∧ e.toNat < 0x110000 :=
    fun e => e.valid
  have hc := hvalid c
  have hd := hvalid d
  have hne : ∀ {x y : Char}, x.toNat = y.toNat → x = y := fun heq => Char.toNat_inj.mp heq
  simp only [units] at h
  split at h <;> split at h <;>
    simp only [List.cons_append, List.nil_append, List.cons.injEq] at h
  · exact ⟨hne h.1, h.2⟩
  · -- a unit of its own is no first half of a pair
    omega
  · omega
  · exact ⟨hne (by omega), h.2.2⟩

/-- The units determine the text. -/
theorem encode_injective : Function.Injective encode := by
  intro s
  induction s with
  | nil =>
    intro t h
    cases t with
    | nil => rfl
    | cons d t =>
      have hlen := congrArg List.length h
      have hpos := length_pos (List.cons_ne_nil d t)
      rw [length] at hpos
      rw [← hlen] at hpos
      exact absurd hpos (Nat.lt_irrefl 0)
  | cons c s ih =>
    intro t h
    cases t with
    | nil =>
      have hlen := congrArg List.length h
      have hpos := length_pos (List.cons_ne_nil c s)
      rw [length] at hpos
      rw [hlen] at hpos
      exact absurd hpos (Nat.lt_irrefl 0)
    | cons =>
      obtain ⟨rfl, hrest⟩ := units_append_inj h
      rw [ih hrest]

end Utf16
