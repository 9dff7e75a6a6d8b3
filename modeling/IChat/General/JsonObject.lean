import IChat.General.JsonText
import Mathlib.Data.List.Nodup

/-!
# Reading a flat object

`json.loads` of the compact text of an object of plain texts and natural numbers. A plain text is
one that is written without escapes.

`readObject_dumps`: what `json.dumps` writes of such an object is read back.
-/

namespace Json

/-- The quote. -/
def quote : Char := Char.ofNat 34

/-- The character is written as it is. -/
def isPlain (c : Char) : Bool := c ≠ quote && c ≠ Char.ofNat 92 && 32 ≤ c.toNat

/-- Read a text, behind its quote. -/
def readText (s : List Char) : Option (String × List Char) :=
  match s.dropWhile isPlain with
  | c :: rest => if c = quote then some (String.ofList (s.takeWhile isPlain), rest) else none
  | [] => none

/-- Read a text or a natural number. -/
def readScalar : List Char → Option (Json × List Char)
  | [] => none
  | c :: s =>
    if c = quote then (readText s).map fun (text, rest) => (.str text, rest)
    else
      let digits := (c :: s).takeWhile Char.isDigit
      let n := Nat.ofDigitChars 10 digits 0
      -- a number has no zeros in front
      if Nat.toDigits 10 n = digits then some (.int n, (c :: s).dropWhile Char.isDigit) else none

/-- Read the quote and the text of a key, the colon and the value. -/
def readField (s : List Char) : Option ((String × Json) × List Char) := do
  let s ← Text.readChar quote s
  let (key, s) ← readText s
  let s ← Text.readChar ':' s
  let (value, s) ← readScalar s
  some ((key, value), s)

/-- Read the fields up to the end of the text. The first argument is fuel. -/
def readFields : ℕ → List Char → Option Dict
  | 0, _ => none
  | fuel + 1, s =>
    match readField s with
    | none => none
    | some (field, s) =>
      if s = [Char.ofNat 125] then some [field]
      else (Text.readChar ',' s).bind fun s => (readFields fuel s).map (field :: ·)

/-- Read an object that has some fields, all with keys of their own. -/
def readObject (s : List Char) : Option Dict :=
  (Text.readChar (Char.ofNat 123) s).bind fun s =>
    (readFields s.length s).bind fun fields =>
      if (fields.map Prod.fst).Nodup then some fields else none

/-- The text is written without escapes. -/
def PlainText (text : String) : Prop := ∀ c ∈ text.toList, isPlain c = true

/-- The value is a plain text or a natural number. -/
inductive IsScalar : Json → Prop
  | str {text : String} (h : PlainText text) : IsScalar (.str text)
  | int (n : ℕ) : IsScalar (.int n)

theorem isPlain_of_isDigit {c : Char} (h : c.isDigit = true) : isPlain c = true := by
  have hquote : c ≠ quote := fun heq => absurd (heq ▸ h) (by decide)
  have hbackslash : c ≠ Char.ofNat 92 := fun heq => absurd (heq ▸ h) (by decide)
  have hcode : 48 ≤ c.toNat := of_decide_eq_true (Bool.and_eq_true_iff.mp h).1
  rw [isPlain, decide_eq_true hquote, decide_eq_true hbackslash, Bool.true_and, Bool.true_and,
    decide_eq_true_iff]
  omega

/-- A plain text is written between quotes. -/
theorem jsonString_of_plain {s : List Char} (h : ∀ c ∈ s, isPlain c = true) :
    Text.jsonString s = quote :: (s ++ [quote]) := by
  rw [Text.jsonString, List.cons_append]
  congr 2
  refine (List.flatMap_congr fun c hc => ?_).trans (List.flatMap_singleton' s)
  have hplain := h c hc
  rw [isPlain, Bool.and_eq_true, Bool.and_eq_true, decide_eq_true_iff, decide_eq_true_iff,
    decide_eq_true_iff] at hplain
  obtain ⟨⟨hquote, hbackslash⟩, hcode⟩ := hplain
  have hnewline : c ≠ '\n' := fun heq => absurd (heq ▸ hcode) (by decide)
  have hreturn : c ≠ '\r' := fun heq => absurd (heq ▸ hcode) (by decide)
  have htab : c ≠ '\t' := fun heq => absurd (heq ▸ hcode) (by decide)
  have hescaped : ¬ (c = Char.ofNat 34 ∨ c = Char.ofNat 92) := not_or.mpr ⟨hquote, hbackslash⟩
  rw [if_neg hescaped, if_neg hnewline, if_neg hreturn, if_neg htab, if_neg (by omega),
    if_neg (by omega), if_neg (by omega)]

/-- A plain text is read back. -/
theorem readText_append {s : List Char} (h : ∀ c ∈ s, isPlain c = true) (rest : List Char) :
    readText (s ++ quote :: rest) = some (String.ofList s, rest) := by
  have hquote : isPlain quote = false := by decide
  have hdrop : (s ++ quote :: rest).dropWhile isPlain = quote :: rest := by
    rw [List.dropWhile_append_of_pos h, List.dropWhile_cons_of_neg (by rw [hquote]; decide)]
  have htake : (s ++ quote :: rest).takeWhile isPlain = s := by
    rw [List.takeWhile_append_of_pos h, List.takeWhile_cons_of_neg (by rw [hquote]; decide),
      List.append_nil]
  rw [readText, hdrop, htake]
  exact if_pos rfl

/-- A value is read back, in front of a character that ends a number. -/
theorem readScalar_dumps {value : Json} (h : IsScalar value) {c : Char} (hc : c.isDigit = false)
    (rest : List Char) :
    readScalar ((dumps "," ":" value).toList ++ c :: rest) = some (value, c :: rest) := by
  cases h with
  | @str text hplain =>
    rw [dumps, String.toList_ofList, jsonString_of_plain hplain, List.cons_append, readScalar,
      if_pos rfl, List.append_assoc, List.singleton_append, readText_append hplain,
      Option.map_some, String.ofList_toList]
  | int n =>
    have hdigits : ∀ d ∈ Nat.toDigits 10 n, d.isDigit = true :=
      fun d hd => Nat.isDigit_of_mem_toDigits (by decide) (by decide) hd
    have htext : (dumps "," ":" (.int n)).toList = Nat.toDigits 10 n := by
      rw [dumps]
      exact Nat.toList_repr
    obtain ⟨first, more, hfirst⟩ : ∃ first more, Nat.toDigits 10 n = first :: more :=
      List.exists_cons_of_ne_nil Nat.toDigits_ne_nil
    have hnotQuote : first ≠ quote := by
      rintro rfl
      exact absurd (hdigits quote (hfirst ▸ List.mem_cons_self)) (by decide)
    have htake : (Nat.toDigits 10 n ++ c :: rest).takeWhile Char.isDigit = Nat.toDigits 10 n := by
      rw [List.takeWhile_append_of_pos hdigits,
        List.takeWhile_cons_of_neg (by rw [hc]; decide), List.append_nil]
    have hdrop : (Nat.toDigits 10 n ++ c :: rest).dropWhile Char.isDigit = c :: rest := by
      rw [List.dropWhile_append_of_pos hdigits, List.dropWhile_cons_of_neg (by rw [hc]; decide)]
    rw [htext]
    rw [hfirst, List.cons_append] at htake hdrop ⊢
    rw [readScalar, if_neg hnotQuote]
    dsimp only
    rw [htake, hdrop, ← hfirst, Nat.ofDigitChars_ten_toDigits, if_pos rfl]

/-- A field is read back. -/
theorem readField_dumps {field : String × Json} (hkey : PlainText field.1)
    (hvalue : IsScalar field.2) {c : Char} (hc : c.isDigit = false) (rest : List Char) :
    readField ((dumpsField "," ":" field).toList ++ c :: rest) = some (field, c :: rest) := by
  obtain ⟨key, value⟩ := field
  have htext : (dumpsField "," ":" (key, value)).toList ++ c :: rest =
      quote :: (key.toList ++ quote :: (':' :: ((dumps "," ":" value).toList ++ c :: rest))) := by
    rw [dumpsField, String.toList_append, String.toList_append, String.toList_ofList,
      jsonString_of_plain hkey]
    simp only [List.cons_append, List.append_assoc, List.nil_append]
    rfl
  rw [htext, readField, Text.readChar_cons]
  simp only [Option.bind_eq_bind, Option.bind_some, readText_append hkey, Text.readChar_cons,
    readScalar_dumps hvalue hc, String.ofList_toList]

theorem length_dumpsField_pos (field : String × Json) :
    0 < (dumpsField "," ":" field).toList.length := by
  rw [dumpsField, String.toList_append, String.toList_append, String.toList_ofList,
    Text.jsonString]
  simp only [List.length_append, List.length_cons]
  omega

/-- There is enough fuel in the text of the fields. -/
theorem length_le_dumpsFields (fields : Dict) :
    fields.length ≤ (",".intercalate (dumpsFields "," ":" fields)).toList.length := by
  induction fields with
  | nil => exact Nat.zero_le _
  | cons field fields ih =>
    have hfield := length_dumpsField_pos field
    cases fields with
    | nil =>
      rw [dumpsFields, dumpsFields, String.intercalate_singleton, List.length_singleton]
      exact hfield
    | cons =>
      rw [dumpsFields] at ih ⊢
      rw [dumpsFields, String.intercalate_cons_cons, String.toList_append, String.toList_append,
        List.length_append, List.length_append, List.length_cons]
      omega

/-- The fields are read back. -/
theorem readFields_dumps {fields : Dict} (hne : fields ≠ [])
    (hplain : ∀ field ∈ fields, PlainText field.1 ∧ IsScalar field.2) {fuel : ℕ}
    (hfuel : fields.length ≤ fuel) :
    readFields fuel ((",".intercalate (dumpsFields "," ":" fields)).toList ++ [Char.ofNat 125]) =
      some fields := by
  induction fields generalizing fuel with
  | nil => exact absurd rfl hne
  | cons field fields ih =>
    obtain ⟨hkey, hvalue⟩ := hplain field List.mem_cons_self
    cases fuel with
    | zero => cases hfuel
    | succ =>
      cases fields with
      | nil =>
        rw [dumpsFields, dumpsFields, String.intercalate_singleton, readFields,
          readField_dumps hkey hvalue (by decide)]
        exact if_pos rfl
      | cons next fields =>
        have hrest := ih (List.cons_ne_nil _ _)
          (fun other hother => hplain other (List.mem_cons_of_mem _ hother))
          (Nat.le_of_succ_le_succ hfuel)
        have htext : (",".intercalate (dumpsFields "," ":" (field :: next :: fields))).toList ++
            [Char.ofNat 125] = (dumpsField "," ":" field).toList ++ ',' ::
              ((",".intercalate (dumpsFields "," ":" (next :: fields))).toList ++
                [Char.ofNat 125]) := by
          rw [dumpsFields, dumpsFields, String.intercalate_cons_cons, String.toList_append,
            String.toList_append, List.append_assoc, List.append_assoc]
          rfl
        rw [htext, readFields, readField_dumps hkey hvalue (by decide)]
        dsimp only
        rw [if_neg (fun heq => absurd (List.cons.inj heq).1 (by decide)), Text.readChar_cons,
          Option.bind_some, hrest, Option.map_some]

/-- **Round trip.** An object of plain texts and natural numbers is read back from its text. -/
theorem readObject_dumps {fields : Dict} (hne : fields ≠ []) (hkeys : (fields.map Prod.fst).Nodup)
    (hplain : ∀ field ∈ fields, PlainText field.1 ∧ IsScalar field.2) :
    readObject (dumps "," ":" (.obj fields)).toList = some fields := by
  have htext : (dumps "," ":" (.obj fields)).toList = Char.ofNat 123 ::
      ((",".intercalate (dumpsFields "," ":" fields)).toList ++ [Char.ofNat 125]) := by
    rw [dumps, String.toList_append, String.toList_append]
    rfl
  have hfuel : fields.length ≤ ((",".intercalate (dumpsFields "," ":" fields)).toList ++
      [Char.ofNat 125]).length := by
    rw [List.length_append]
    exact (length_le_dumpsFields fields).trans (Nat.le_add_right _ _)
  rw [htext, readObject, Text.readChar_cons, Option.bind_some, readFields_dumps hne hplain hfuel,
    Option.bind_some, if_pos hkeys]

end Json
