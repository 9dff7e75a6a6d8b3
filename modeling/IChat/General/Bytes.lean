import IChat.General.Text
import Mathlib.Data.Nat.Notation

/-!
# Bytes

The bytes of a text, and their hexadecimal form.

* `ofUtf8?_utf8`: a text is read back from its bytes;
* `hex_injective`: bytes that differ have forms that differ.
-/

namespace Bytes

/-- `text.encode()`. -/
def utf8 (text : String) : List UInt8 := text.toByteArray.data.toList

/-- `data.decode()`; the exception is `none`. -/
def ofUtf8? (data : List UInt8) : Option String := String.fromUTF8? ⟨data.toArray⟩

/-- The digits of a byte. -/
def hexByte (b : UInt8) : List Char :=
  [Text.hexDigit (b.toNat / 16), Text.hexDigit (b.toNat % 16)]

/-- `data.hex()`. -/
def hex (data : List UInt8) : String := String.ofList (data.flatMap hexByte)

theorem ofUtf8?_utf8 (text : String) : ofUtf8? (utf8 text) = some text := by
  have hbytes : (⟨(utf8 text).toArray⟩ : ByteArray) = text.toByteArray := by
    rw [utf8, Array.toArray_toList]
  rw [ofUtf8?, String.fromUTF8?, hbytes, dif_pos text.isValidUTF8]
  rfl

/-- A character takes at most four bytes. -/
theorem length_utf8_le (text : String) : (utf8 text).length ≤ 4 * text.toList.length := by
  have hchars : ∀ s : List Char, (s.flatMap String.utf8EncodeChar).length ≤ 4 * s.length := by
    intro s
    induction s with
    | nil => exact Nat.le_refl _
    | cons c =>
      have hc := c.utf8Size_le_four
      rw [List.flatMap_cons, List.length_append, String.length_utf8EncodeChar, List.length_cons]
      omega
  have hbytes : utf8 text = text.toList.flatMap String.utf8EncodeChar := by
    have hencoded : text.toByteArray = text.toList.utf8Encode := by
      rw [← String.toByteArray_ofList, String.ofList_toList]
    rw [utf8, hencoded, List.utf8Encode, List.toList_data_toByteArray]
  rw [hbytes]
  exact hchars _

theorem length_hex (data : List UInt8) : (hex data).toList.length = 2 * data.length := by
  rw [hex, String.toList_ofList]
  induction data with
  | nil => rfl
  | cons b data ih =>
    rw [List.flatMap_cons, List.length_append, ih, List.length_cons, hexByte, List.length_cons,
      List.length_singleton]
    omega

theorem hexDigit_injective :
    ∀ m n : Fin 16, Text.hexDigit m = Text.hexDigit n → m = n := by decide

/-- The form consists of digits. -/
theorem exists_hexDigit_of_mem_hex {data : List UInt8} {c : Char} (h : c ∈ (hex data).toList) :
    ∃ d : Fin 16, c = Text.hexDigit d := by
  rw [hex, String.toList_ofList] at h
  obtain ⟨b, -, hc⟩ := List.mem_flatMap.mp h
  have hb := b.toNat_lt
  rw [hexByte, List.mem_cons, List.mem_singleton] at hc
  obtain rfl | rfl := hc
  · exact ⟨⟨b.toNat / 16, by omega⟩, rfl⟩
  · exact ⟨⟨b.toNat % 16, by omega⟩, rfl⟩

/-- Bytes are determined by their form. -/
theorem hex_injective : Function.Injective hex := by
  intro a b h
  replace h : a.flatMap hexByte = b.flatMap hexByte := String.ofList_injective h
  induction a generalizing b with
  | nil =>
    cases b with
    | nil => rfl
    | cons => cases h
  | cons x a ih =>
    cases b with
    | nil => cases h
    | cons y =>
      have hx := x.toNat_lt
      have hy := y.toNat_lt
      rw [List.flatMap_cons, List.flatMap_cons, hexByte, hexByte] at h
      obtain ⟨hhigh, hrest⟩ := List.cons.inj h
      obtain ⟨hlow, hrest⟩ := List.cons.inj hrest
      have hquotient := hexDigit_injective ⟨x.toNat / 16, by omega⟩ ⟨y.toNat / 16, by omega⟩ hhigh
      have hmodulus := hexDigit_injective ⟨x.toNat % 16, by omega⟩ ⟨y.toNat % 16, by omega⟩ hlow
      rw [Fin.mk.injEq] at hquotient hmodulus
      have hbyte : x = y := UInt8.toNat_inj.mp (by omega)
      rw [hbyte, ih hrest]

end Bytes
