import IChat.General.Text
import Mathlib.Data.Nat.Notation

/-!
# Base64

`base64.urlsafe_b64encode`, and the strict `base64.b64decode` with the characters `-` and `_` in the
place of `+` and `/`. A text without its padding is padded again by its length.

`encodeUnpadded_spec`: what is encoded and stripped of its padding is read back.
-/

namespace Base64

/-- The character of six bits. -/
def digit (n : ℕ) : Char :=
  if n < 26 then Char.ofNat ('A'.toNat + n)
  else if n < 52 then Char.ofNat ('a'.toNat + (n - 26))
  else if n < 62 then Char.ofNat ('0'.toNat + (n - 52))
  else if n = 62 then '-' else '_'

/-- The six bits of a character. -/
def value (c : Char) : Option ℕ :=
  if 'A' ≤ c ∧ c ≤ 'Z' then some (c.toNat - 'A'.toNat)
  else if 'a' ≤ c ∧ c ≤ 'z' then some (c.toNat - 'a'.toNat + 26)
  else if '0' ≤ c ∧ c ≤ '9' then some (c.toNat - '0'.toNat + 52)
  else if c = '-' ∨ c = '+' then some 62
  else if c = '_' ∨ c = '/' then some 63
  else none

/-- `base64.urlsafe_b64encode(value).decode()`. -/
def encode : List UInt8 → List Char
  | a :: b :: c :: bytes =>
    digit (a.toNat / 4) :: digit (a.toNat % 4 * 16 + b.toNat / 16) ::
      digit (b.toNat % 16 * 4 + c.toNat / 64) :: digit (c.toNat % 64) :: encode bytes
  | [a, b] =>
    [digit (a.toNat / 4), digit (a.toNat % 4 * 16 + b.toNat / 16), digit (b.toNat % 16 * 4), '=']
  | [a] => [digit (a.toNat / 4), digit (a.toNat % 4 * 16), '=', '=']
  | [] => []

/-- `base64.b64decode(text, altchars=b"-_", validate=True)`; the exception is `none`. -/
def decode : List Char → Option (List UInt8)
  | [] => some []
  | c :: d :: e :: f :: text => do
    let w ← value c
    let x ← value d
    let first := UInt8.ofNat (w * 4 + x / 16)
    if f = '=' then
      if text ≠ [] then none
      else if e = '=' then some [first]
      else (value e).map fun y => [first, UInt8.ofNat (x % 16 * 16 + y / 4)]
    else
      let y ← value e
      let z ← value f
      let bytes ← decode text
      some (first :: UInt8.ofNat (x % 16 * 16 + y / 4) :: UInt8.ofNat (y % 4 * 64 + z) :: bytes)
  | _ => none

/-- The encoding without its padding. -/
def encodeUnpadded (bytes : List UInt8) : List Char := Text.rstrip (· = '=') (encode bytes)

/-- Read a text without its padding. -/
def decodeUnpadded (text : List Char) : Option (List UInt8) :=
  decode (text ++ List.replicate ((4 - text.length % 4) % 4) '=')

theorem value_digit_fin :
    ∀ n : Fin 64, value (digit n) = some n.val ∧ digit n ≠ '=' ∧ digit n ≠ '.' := by
  decide

theorem value_digit {n : ℕ} (h : n < 64) : value (digit n) = some n := (value_digit_fin ⟨n, h⟩).1

theorem digit_ne {n : ℕ} (h : n < 64) : digit n ≠ '=' := (value_digit_fin ⟨n, h⟩).2.1

theorem digit_ne_dot {n : ℕ} (h : n < 64) : digit n ≠ '.' := (value_digit_fin ⟨n, h⟩).2.2

/-- What is encoded is read back. -/
theorem decode_encode (bytes : List UInt8) : decode (encode bytes) = some bytes := by
  fun_induction encode bytes with
  | case1 a b c bytes ih =>
    have ha := a.toNat_lt
    have hb := b.toNat_lt
    have hc := c.toNat_lt
    have hfirst : a.toNat / 4 * 4 + (a.toNat % 4 * 16 + b.toNat / 16) / 16 = a.toNat := by omega
    have hsecond : (a.toNat % 4 * 16 + b.toNat / 16) % 16 * 16 +
        (b.toNat % 16 * 4 + c.toNat / 64) / 4 = b.toNat := by omega
    have hthird : (b.toNat % 16 * 4 + c.toNat / 64) % 4 * 64 + c.toNat % 64 = c.toNat := by omega
    rw [decode, value_digit (by omega), value_digit (by omega)]
    simp only [Option.bind_eq_bind, Option.bind_some]
    rw [if_neg (digit_ne (by omega)), value_digit (by omega), value_digit (by omega), ih]
    simp only [Option.bind_some, hfirst, hsecond, hthird, UInt8.ofNat_toNat]
  | case2 a b =>
    have ha := a.toNat_lt
    have hb := b.toNat_lt
    have hfirst : a.toNat / 4 * 4 + (a.toNat % 4 * 16 + b.toNat / 16) / 16 = a.toNat := by omega
    have hsecond : (a.toNat % 4 * 16 + b.toNat / 16) % 16 * 16 + b.toNat % 16 * 4 / 4 =
        b.toNat := by omega
    rw [decode, value_digit (by omega), value_digit (by omega)]
    simp only [Option.bind_eq_bind, Option.bind_some]
    rw [if_pos trivial, if_neg (not_not.mpr rfl), if_neg (digit_ne (by omega)),
      value_digit (by omega), Option.map_some, hfirst, hsecond, UInt8.ofNat_toNat,
      UInt8.ofNat_toNat]
  | case3 a =>
    have ha := a.toNat_lt
    have hfirst : a.toNat / 4 * 4 + a.toNat % 4 * 16 / 16 = a.toNat := by omega
    rw [decode, value_digit (by omega), value_digit (by omega)]
    simp only [Option.bind_eq_bind, Option.bind_some]
    rw [if_pos trivial, if_neg (not_not.mpr rfl), if_pos trivial, hfirst, UInt8.ofNat_toNat]
  | case4 => rfl

/-- The encoding is a text of digits and its padding. -/
theorem exists_padding (bytes : List UInt8) : ∃ text, (∀ c ∈ text, ∃ n < 64, c = digit n) ∧
    encode bytes = text ++ List.replicate ((4 - text.length % 4) % 4) '=' ∧
    3 * text.length ≤ 4 * bytes.length + 3 := by
  fun_induction encode bytes with
  | case1 a b c bytes ih =>
    obtain ⟨text, hdigits, htext, hlength⟩ := ih
    have ha := a.toNat_lt
    have hb := b.toNat_lt
    refine ⟨digit (a.toNat / 4) :: digit (a.toNat % 4 * 16 + b.toNat / 16) ::
      digit (b.toNat % 16 * 4 + c.toNat / 64) :: digit (c.toNat % 64) :: text, ?_, ?_, ?_⟩
    · simp only [List.forall_mem_cons]
      exact ⟨⟨_, by omega, rfl⟩, ⟨_, by have := c.toNat_lt; omega, rfl⟩,
        ⟨_, by have := c.toNat_lt; omega, rfl⟩, ⟨_, by omega, rfl⟩, hdigits⟩
    · have hpad : (text.length + 1 + 1 + 1 + 1) % 4 = text.length % 4 := by omega
      simp only [List.length_cons, hpad, List.cons_append, htext]
    · simp only [List.length_cons]
      omega
  | case2 a b =>
    have ha := a.toNat_lt
    have hb := b.toNat_lt
    refine ⟨[digit (a.toNat / 4), digit (a.toNat % 4 * 16 + b.toNat / 16),
      digit (b.toNat % 16 * 4)], ?_, rfl, by simp only [List.length_cons, List.length_nil]; omega⟩
    simp only [List.forall_mem_cons]
    exact ⟨⟨_, by omega, rfl⟩, ⟨_, by omega, rfl⟩, ⟨_, by omega, rfl⟩, (fun _ h => nomatch h)⟩
  | case3 a =>
    have ha := a.toNat_lt
    refine ⟨[digit (a.toNat / 4), digit (a.toNat % 4 * 16)], ?_, rfl,
      by simp only [List.length_cons, List.length_nil]; omega⟩
    simp only [List.forall_mem_cons]
    exact ⟨⟨_, by omega, rfl⟩, ⟨_, by omega, rfl⟩, (fun _ h => nomatch h)⟩
  | case4 => exact ⟨[], (fun _ h => nomatch h), rfl, Nat.zero_le _⟩

/-- What is encoded and stripped of its padding is a text of digits, and it is read back. -/
theorem encodeUnpadded_spec (bytes : List UInt8) :
    (∀ c ∈ encodeUnpadded bytes, ∃ n < 64, c = digit n) ∧
      3 * (encodeUnpadded bytes).length ≤ 4 * bytes.length + 3 ∧
      decodeUnpadded (encodeUnpadded bytes) = some bytes := by
  obtain ⟨text, hdigits, htext, hlength⟩ := exists_padding bytes
  have hlast : ∀ c ∈ text.getLast?, decide (c = '=') = false := by
    intro c hc
    obtain ⟨n, hn, rfl⟩ := hdigits c (List.mem_of_getLast? hc)
    exact decide_eq_false (digit_ne hn)
  have hstripped : encodeUnpadded bytes = text := by
    rw [encodeUnpadded, htext, Text.rstrip_append_replicate (decide_eq_true rfl)]
    exact Text.rstrip_eq_self hlast
  rw [hstripped, decodeUnpadded, ← htext]
  exact ⟨hdigits, hlength, decode_encode bytes⟩

end Base64
