import Mathlib.Data.List.Basic
import IChat.General.Binary64
import IChat.General.Digits

/-!
# JSON values and dictionaries

Event payloads travel through three encodings of the same JSON object: an in-memory dictionary, a
`JSONB` column and a Redis stream field. This module fixes the value type they share. Objects are
association lists; `get?` and `set` are the lookup and the in-place assignment of a Python
dictionary, whose insertion order the list keeps.

Equality of values is decided by structural recursion, so closed equalities of payloads evaluate.
-/

/-- A JSON value. A floating-point number is kept by the literal that is its `repr`. -/
inductive Json where
  | null
  | bool (b : Bool)
  | int (n : Int)
  | float (literal : String)
  | str (s : String)
  | arr (items : List Json)
  | obj (fields : List (String × Json))

namespace Json

mutual

/-- Structural comparison of two values. -/
def beq : Json → Json → Bool
  | .null, .null => true
  | .bool a, .bool b => a == b
  | .int a, .int b => a == b
  | .float a, .float b => a == b
  | .str a, .str b => a == b
  | .arr as, .arr bs => beqItems as bs
  | .obj as, .obj bs => beqFields as bs
  | _, _ => false
termination_by structural a => a

/-- Structural comparison of two arrays. -/
def beqItems : List Json → List Json → Bool
  | [], [] => true
  | a :: as, b :: bs => beq a b && beqItems as bs
  | _, _ => false
termination_by structural a => a

/-- Structural comparison of two objects. -/
def beqFields : List (String × Json) → List (String × Json) → Bool
  | [], [] => true
  | a :: as, b :: bs => beqField a b && beqFields as bs
  | _, _ => false
termination_by structural a => a

/-- Structural comparison of two fields. -/
def beqField : String × Json → String × Json → Bool
  | (k, a), (l, b) => k == l && beq a b
termination_by structural a => a

end

mutual

private theorem eq_of_beq : ∀ {a b : Json}, beq a b = true → a = b
  | .null, b, h => by cases b <;> simp_all [beq]
  | .bool _, b, h => by cases b <;> simp_all [beq]
  | .int _, b, h => by cases b <;> simp_all [beq]
  | .float _, b, h => by cases b <;> simp_all [beq]
  | .str _, b, h => by cases b <;> simp_all [beq]
  | .arr as, b, h => by
      cases b <;> simp only [beq, Bool.false_eq_true] at h
      rw [eq_of_beqItems h]
  | .obj as, b, h => by
      cases b <;> simp only [beq, Bool.false_eq_true] at h
      rw [eq_of_beqFields h]

private theorem eq_of_beqItems : ∀ {as bs : List Json}, beqItems as bs = true → as = bs
  | [], bs, h => by cases bs <;> simp_all [beqItems]
  | a :: as, bs, h => by
      cases bs <;> simp only [beqItems, Bool.false_eq_true, Bool.and_eq_true] at h
      rw [eq_of_beq h.1, eq_of_beqItems h.2]

private theorem eq_of_beqFields :
    ∀ {as bs : List (String × Json)}, beqFields as bs = true → as = bs
  | [], bs, h => by cases bs <;> simp_all [beqFields]
  | a :: as, bs, h => by
      cases bs <;> simp only [beqFields, Bool.false_eq_true, Bool.and_eq_true] at h
      rw [eq_of_beqField h.1, eq_of_beqFields h.2]

private theorem eq_of_beqField : ∀ {a b : String × Json}, beqField a b = true → a = b
  | (k, a), (l, b), h => by
      simp only [beqField, Bool.and_eq_true, beq_iff_eq] at h
      rw [h.1, eq_of_beq h.2]

end

mutual

private theorem beq_self : ∀ a : Json, beq a a = true
  | .null => rfl
  | .bool _ => by simp [beq]
  | .int _ => by simp [beq]
  | .float _ => by simp [beq]
  | .str _ => by simp [beq]
  | .arr as => by simpa [beq] using beqItems_self as
  | .obj as => by simpa [beq] using beqFields_self as

private theorem beqItems_self : ∀ as : List Json, beqItems as as = true
  | [] => rfl
  | a :: as => by simp [beqItems, beq_self a, beqItems_self as]

private theorem beqFields_self : ∀ as : List (String × Json), beqFields as as = true
  | [] => rfl
  | (k, a) :: as => by simp [beqFields, beqField, beq_self a, beqFields_self as]

end

instance : DecidableEq Json := fun a b =>
  decidable_of_iff (beq a b = true) ⟨eq_of_beq, fun h => h ▸ beq_self a⟩

/-- The text of a JSON string. -/
def str? : Json → Option String
  | .str s => some s
  | _ => none

/-- The value of a JSON integer. -/
def int? : Json → Option Int
  | .int n => some n
  | _ => none

/-- The fields of a JSON object. -/
def obj? : Json → Option (List (String × Json))
  | .obj fields => some fields
  | _ => none

/-- The items of a JSON array. -/
def arr? : Json → Option (List Json)
  | .arr items => some items
  | _ => none

/-- The number of a literal without its sign, as a significand and an exponent of ten. -/
def decimal (literal : List Char) : ℕ × ℤ :=
  let digits := literal.takeWhile fun c => c ≠ 'e' ∧ c ≠ 'E'
  let fraction := (digits.dropWhile (· ≠ '.')).drop 1
  let exponent := (Text.parseInt (literal.drop (digits.length + 1))).getD 0
  ((digits.filterMap Text.decimalValue).foldl (fun n d => n * 10 + d) 0,
    exponent - fraction.length)

/-- A floating-point number without its fraction, and whether it has none; `none` for the infinities
and what is no number. -/
def truncate (literal : String) : Option (Int × Bool) :=
  let (significand, exponent) := decimal literal.toList
  let a := significand * 10 ^ exponent.toNat
  let b := 10 ^ (-exponent).toNat
  let sign : Int := if literal.toList.head? = some '-' then -1 else 1
  if literal.toList.all fun c => !c.isDigit then none
  else if a < b then some (0, a = 0)
  else (Binary64.divide a b).map fun x => (sign * x.floor, x.floor = x.ceil)

/-- The integer that is an instance of `int`, as the truth values are. -/
def instance? : Json → Option Int
  | .int n => some n
  | .bool b => some (if b then 1 else 0)
  | _ => none

/-- `int(value)`. -/
def toInt? : Json → Option Int
  | .float literal => (truncate literal).map Prod.fst
  | .str s => Text.parseInt s.toList
  | value => value.instance?

/-- `bool(value)`. A number that is not an integer is zero when its mantissa has no other digit. -/
def truthy : Json → Bool
  | .null => false
  | .bool b => b
  | .int n => n ≠ 0
  | .float literal =>
    (literal.toList.takeWhile fun c => c ≠ 'e' ∧ c ≠ 'E').any fun c => c.isDigit ∧ c ≠ '0'
  | .str s => s ≠ ""
  | .arr items => !items.isEmpty
  | .obj fields => !fields.isEmpty

/-- `repr` of a string: it is quoted, by the double quote if it contains only the single one, with
the quotes and backslashes inside escaped. -/
def reprStr (s : String) : String :=
  let single := Char.ofNat 39
  let double := Char.ofNat 34
  let backslash := Char.ofNat 92
  let quote := if single ∈ s.toList ∧ double ∉ s.toList then double else single
  let escape (c : Char) : List Char := if c = quote ∨ c = backslash then [backslash, c] else [c]
  String.ofList (quote :: s.toList.flatMap escape ++ [quote])

mutual

/-- `repr(value)`. -/
def repr : Json → String
  | .null => "None"
  | .bool b => if b then "True" else "False"
  | .int n => toString n
  | .float literal => literal
  | .str s => reprStr s
  | .arr items => "[" ++ ", ".intercalate (reprItems items) ++ "]"
  | .obj fields => "\x7b" ++ ", ".intercalate (reprFields fields) ++ "\x7d"
termination_by structural value => value

/-- The items of a list, rendered. -/
def reprItems : List Json → List String
  | [] => []
  | item :: items => repr item :: reprItems items
termination_by structural items => items

/-- The fields of a dictionary, rendered. -/
def reprFields : List (String × Json) → List String
  | [] => []
  | field :: fields => reprField field :: reprFields fields
termination_by structural fields => fields

/-- A field of a dictionary, rendered. -/
def reprField : String × Json → String
  | (key, value) => reprStr key ++ ": " ++ repr value
termination_by structural field => field

end

/-- `str(value)`. -/
def toStr : Json → String
  | .str s => s
  | value => value.repr

@[simp] theorem str?_str (s : String) : (Json.str s).str? = some s := rfl

@[simp] theorem int?_int (n : Int) : (Json.int n).int? = some n := rfl

@[simp] theorem obj?_obj (fields : List (String × Json)) : (Json.obj fields).obj? = some fields :=
  rfl

end Json

/-- A dictionary with string keys, in insertion order. -/
abbrev Dict := List (String × Json)

namespace Dict

/-- `d.get(key)`. -/
def get? (d : Dict) (key : String) : Option Json := d.lookup key

/-- `d[key] = value`: the binding keeps its place when the key is already bound. -/
def set (key : String) (value : Json) : Dict → Dict
  | [] => [(key, value)]
  | (k, v) :: d => if k = key then (k, value) :: d else (k, v) :: set key value d

/-- `d.update(other)`. -/
def update (d other : Dict) : Dict :=
  other.foldl (fun d p => set p.1 p.2 d) d

/-- `d.setdefault(key, value)`. -/
def setdefault (d : Dict) (key : String) (value : Json) : Dict :=
  match d.get? key with
  | some _ => d
  | none => d ++ [(key, value)]

@[simp] theorem get?_nil (key : String) : Dict.get? [] key = none := rfl

theorem get?_cons (d : Dict) (k key : String) (v : Json) :
    Dict.get? ((k, v) :: d) key = if key = k then some v else d.get? key := by
  unfold get?
  rw [List.lookup_cons]
  by_cases h : key = k
  · simp [h]
  · have hne : (key == k) = false := by simpa using h
    rw [hne, if_neg h]

theorem get?_set_of_ne {d : Dict} {k key : String} {v : Json} (h : key ≠ k) :
    (d.set k v).get? key = d.get? key := by
  induction d with
  | nil =>
    rw [set, get?_cons, if_neg h]
  | cons field d ih =>
    obtain ⟨l, w⟩ := field
    rw [set]
    by_cases hl : l = k
    · rw [if_pos hl, get?_cons, get?_cons, if_neg (hl ▸ h), if_neg (hl ▸ h)]
    · rw [if_neg hl, get?_cons, get?_cons, ih]

theorem get?_set_self {d : Dict} {key : String} {v : Json} :
    (d.set key v).get? key = some v := by
  induction d with
  | nil => rw [set, get?_cons, if_pos rfl]
  | cons field d ih =>
    obtain ⟨l, w⟩ := field
    rw [set]
    by_cases hl : l = key
    · rw [if_pos hl, get?_cons, if_pos hl.symm]
    · rw [if_neg hl, get?_cons, if_neg (Ne.symm hl), ih]

theorem get?_update_of_notMem {d other : Dict} {key : String} (h : key ∉ other.map Prod.fst) :
    (d.update other).get? key = d.get? key := by
  rw [update]
  induction other generalizing d with
  | nil => rfl
  | cons field other ih =>
    rw [List.map_cons, List.mem_cons, not_or] at h
    rw [List.foldl_cons, ih h.2, get?_set_of_ne h.1]

end Dict
