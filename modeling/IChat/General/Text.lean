import Mathlib.Data.List.TakeWhile

/-!
# Texts as lists of characters

The methods of Python's `str` that the source uses, as functions on lists of characters, and the
JSON form of a text.
-/

namespace Text

-- Definitions that search a list name these instances, in place of a proof of their own.
instance lawfulBEqListChar : LawfulBEq (List Char) := inferInstance

instance lawfulBEqOptionNat : LawfulBEq (Option ℕ) := inferInstance

/-- `str.isspace`, for one character. -/
def isSpace (c : Char) : Bool :=
  let n := c.toNat
  (9 ≤ n ∧ n ≤ 13) ∨ (28 ≤ n ∧ n ≤ 32) ∨ n = 0x85 ∨ n = 0xa0 ∨ n = 0x1680 ∨
    (0x2000 ≤ n ∧ n ≤ 0x200a) ∨ n = 0x2028 ∨ n = 0x2029 ∨ n = 0x202f ∨ n = 0x205f ∨ n = 0x3000

/-- A test of every character of a text, made character by character. -/
theorem forall_mem_of_all {s : List Char} {p : Char → Prop} [DecidablePred p]
    (h : (s.all fun c => decide (p c)) = true) : ∀ c ∈ s, p c :=
  fun c hc => of_decide_eq_true (List.all_eq_true.mp h c hc)

/-- `str.rstrip`, for the characters that satisfy the test. -/
def rstrip (p : Char → Bool) (s : List Char) : List Char := (s.reverse.dropWhile p).reverse

/-- `str.strip`, for the characters that satisfy the test. -/
def stripChars (p : Char → Bool) (s : List Char) : List Char := rstrip p (s.dropWhile p)

/-- `str.strip`. -/
def strip (s : List Char) : List Char := stripChars isSpace s

/-- `str.partition`: the text before the first separator, and the text after it if there is one. -/
def partition (sep : Char) (s : List Char) : List Char × Option (List Char) :=
  match s.dropWhile (· ≠ sep) with
  | [] => (s, none)
  | _ :: rest => (s.takeWhile (· ≠ sep), some rest)

/-- `str.rpartition`: the text before the last separator if there is one, and the text after it. -/
def rpartition (sep : Char) (s : List Char) : Option (List Char) × List Char :=
  match partition sep s.reverse with
  | (_, none) => (none, s)
  | (last, some rest) => (some rest.reverse, last.reverse)

/-- `str.split()`: the words between white space. -/
def words (s : List Char) : List (List Char) :=
  (s.splitOnP isSpace).filter (· ≠ [])

/-- Drop the occurrences of a pattern from left to right, after some characters of the last one. -/
def removeAfter (pattern : List Char) : ℕ → List Char → List Char
  | _, [] => []
  | k + 1, _ :: s => removeAfter pattern k s
  | 0, c :: s =>
    if pattern <+: c :: s then removeAfter pattern (pattern.length - 1) s
    else c :: removeAfter pattern 0 s

/-- `str.replace`, of a pattern by the empty text. -/
def remove (pattern s : List Char) : List Char := removeAfter pattern 0 s

/-- Nothing is dropped from a text without the first character of the pattern. -/
theorem remove_of_notMem {first : Char} {pattern s : List Char} (h : first ∉ s) :
    remove (first :: pattern) s = s := by
  induction s with
  | nil => rfl
  | cons c s ih =>
    obtain ⟨hc, hs⟩ := not_or.mp (mt List.mem_cons.mpr h)
    have hnot : ¬first :: pattern <+: c :: s := fun hprefix =>
      hc (List.cons_prefix_cons.mp hprefix).1
    rw [remove, removeAfter, if_neg hnot, ← remove, ih hs]

theorem mem_of_mem_partition_fst {sep c : Char} {s : List Char} (h : c ∈ (partition sep s).1) :
    c ∈ s := by
  rw [partition] at h
  split at h
  · exact h
  · exact List.takeWhile_subset _ h

theorem mem_of_mem_partition_snd {sep c : Char} {s : List Char}
    (h : c ∈ (partition sep s).2.getD []) : c ∈ s := by
  rw [partition] at h
  split at h
  · cases h
  · rename_i rest heq
    refine (List.dropWhile_suffix (· ≠ sep)).subset ?_
    rw [heq]
    exact List.mem_cons_of_mem _ h

theorem mem_of_mem_rpartition_snd {sep c : Char} {s : List Char} (h : c ∈ (rpartition sep s).2) :
    c ∈ s := by
  rw [rpartition] at h
  split at h
  · exact h
  · rename_i last rest heq
    have hlast : c ∈ (partition sep s.reverse).1 := by
      rw [heq]
      exact List.mem_reverse.mp h
    exact List.mem_reverse.mp (mem_of_mem_partition_fst hlast)

/-- The end is stripped one character at a time. -/
theorem rstrip_append_singleton (p : Char → Bool) (s : List Char) (c : Char) :
    rstrip p (s ++ [c]) = if p c then rstrip p s else s ++ [c] := by
  rw [rstrip, List.reverse_append, List.reverse_singleton, List.singleton_append,
    List.dropWhile_cons]
  split
  · rfl
  · rw [List.reverse_cons, List.reverse_reverse]

/-- The characters of a padding are stripped. -/
theorem rstrip_append_replicate {p : Char → Bool} {s : List Char} {c : Char} (hc : p c = true)
    {n : ℕ} : rstrip p (s ++ List.replicate n c) = rstrip p s := by
  induction n with
  | zero => rw [List.replicate_zero, List.append_nil]
  | succ n ih =>
    rw [List.replicate_succ', ← List.append_assoc, rstrip_append_singleton, if_pos hc, ih]

/-- A text that ends with a character that stays is not shortened at its end. -/
theorem rstrip_eq_self {p : Char → Bool} {s : List Char} (h : ∀ c ∈ s.getLast?, p c = false) :
    rstrip p s = s := by
  rcases List.eq_nil_or_concat s with rfl | ⟨s, c, rfl⟩
  · rfl
  · rw [List.concat_eq_append] at h ⊢
    rw [rstrip_append_singleton, h c (by simp), if_neg Bool.false_ne_true]

/-- Nor is one that starts with such a character at its start. -/
theorem dropWhile_eq_self {p : Char → Bool} {s : List Char} (h : ∀ c ∈ s.head?, p c = false) :
    s.dropWhile p = s := by
  cases s with
  | nil => rfl
  | cons c => rw [List.dropWhile_cons, h c (by simp), if_neg Bool.false_ne_true]

/-- A text is not stripped when its ends stay. -/
theorem stripChars_eq_self {p : Char → Bool} {s : List Char} (hhead : ∀ c ∈ s.head?, p c = false)
    (hlast : ∀ c ∈ s.getLast?, p c = false) : stripChars p s = s := by
  rw [stripChars, dropWhile_eq_self hhead, rstrip_eq_self hlast]

/-- A stripped text does not end with a character that is stripped. -/
theorem getLast?_rstrip {p : Char → Bool} {s : List Char} :
    ∀ c ∈ (rstrip p s).getLast?, p c = false := by
  intro c hc
  rw [rstrip, List.getLast?_reverse] at hc
  have hnot := List.head?_dropWhile_not p s.reverse
  rw [Option.mem_def.mp hc] at hnot
  simpa using hnot

theorem rstrip_prefix (p : Char → Bool) (s : List Char) : rstrip p s <+: s := by
  rw [rstrip, ← List.reverse_suffix, List.reverse_reverse]
  exact List.dropWhile_suffix p

/-- Nor does it start with one. -/
theorem head?_stripChars {p : Char → Bool} {s : List Char} :
    ∀ c ∈ (stripChars p s).head?, p c = false := by
  intro c hc
  have hhead : c ∈ (s.dropWhile p).head? := by
    obtain ⟨rest, hrest⟩ := rstrip_prefix p (s.dropWhile p)
    rw [← hrest, List.head?_append, ← stripChars, Option.mem_def.mp hc]
    rfl
  have hnot := List.head?_dropWhile_not p s
  rw [Option.mem_def.mp hhead] at hnot
  simpa using hnot

/-- Nothing is stripped from a text without the characters. -/
theorem stripChars_of_forall {p : Char → Bool} {s : List Char} (h : ∀ c ∈ s, p c = false) :
    stripChars p s = s :=
  stripChars_eq_self (fun c hc => h c (List.mem_of_mem_head? hc))
    fun c hc => h c (List.mem_of_mem_getLast? hc)

/-- Nothing is left of a text of characters that are stripped. -/
theorem stripChars_eq_nil_iff {p : Char → Bool} {s : List Char} :
    stripChars p s = [] ↔ ∀ c ∈ s, p c = true := by
  rw [stripChars, rstrip, List.reverse_eq_nil_iff, List.dropWhile_eq_nil_iff]
  constructor
  · intro hall
    by_contra hnot
    rw [← List.dropWhile_eq_nil_iff] at hnot
    -- the first character that is kept is not stripped
    obtain ⟨c, rest, hcons⟩ := List.exists_cons_of_ne_nil hnot
    have hhead := List.head?_dropWhile_not p s
    rw [hcons] at hall hhead
    rw [List.head?_cons] at hhead
    have hc := hall c (List.mem_reverse.mpr List.mem_cons_self)
    simp_all
  · intro hall c hc
    exact hall c ((List.dropWhile_suffix p).subset (List.mem_reverse.mp hc))

/-- A text has no words exactly if it is white space. -/
theorem words_eq_nil_iff {s : List Char} : words s = [] ↔ ∀ c ∈ s, isSpace c = true := by
  have hpieces : (∀ piece ∈ s.splitOnP isSpace, piece = []) ↔ ∀ c ∈ s, isSpace c = true := by
    induction s with
    | nil => simp
    | cons c s ih =>
      rw [List.splitOnP_cons_eq_if_modifyHead]
      by_cases hc : isSpace c = true
      · rw [if_pos hc, List.forall_mem_cons, List.forall_mem_cons, ih]
        exact and_congr (iff_of_true rfl hc) Iff.rfl
      · obtain ⟨piece, rest, hcons⟩ := List.exists_cons_of_ne_nil (List.splitOnP_ne_nil isSpace s)
        rw [if_neg hc, hcons, List.modifyHead_cons, List.forall_mem_cons, List.forall_mem_cons]
        exact iff_of_false (fun h => List.cons_ne_nil c piece h.1) fun h => hc h.1
  rw [words, List.filter_eq_nil_iff, ← hpieces]
  simp

/-- Read a character at the front of a text. -/
def readChar (c : Char) : List Char → Option (List Char)
  | [] => none
  | d :: s => if d = c then some s else none

theorem readChar_cons (c : Char) (s : List Char) : readChar c (c :: s) = some s := if_pos rfl

/-- A digit of a hexadecimal number. -/
def hexDigit (n : ℕ) : Char :=
  if n < 10 then Char.ofNat ('0'.toNat + n) else Char.ofNat ('a'.toNat + n - 10)

/-- `json.dumps` of a text, with `ensure_ascii=False`. -/
def jsonString (s : List Char) : List Char :=
  let quote := Char.ofNat 34
  let backslash := Char.ofNat 92
  let escape (c : Char) : List Char :=
    if c = quote ∨ c = backslash then [backslash, c]
    else if c = '\n' then [backslash, 'n']
    else if c = '\r' then [backslash, 'r']
    else if c = '\t' then [backslash, 't']
    else if c.toNat = 8 then [backslash, 'b']
    else if c.toNat = 12 then [backslash, 'f']
    else if c.toNat < 32 then
      [backslash, 'u', '0', '0', hexDigit (c.toNat / 16), hexDigit (c.toNat % 16)]
    else [c]
  quote :: s.flatMap escape ++ [quote]

end Text
