import Mathlib.Data.List.Infix

/-!
# Searching a text

The first occurrence of a text in another, and the `LIKE` patterns of SQL.

- `find_eq_some_iff`, `find_isSome_iff`: the first occurrence is found, and only where there is one;
- `find_append_singleton`: an end that the text does not have is not part of an occurrence;
- `like_contains`: the pattern that escapes a text between two `%` matches the texts that
  contain it.
-/

namespace TextSearch

section Find

variable {α : Type*}

/-- An element that does not end the text is not the end of an occurrence. -/
theorem prefix_append_singleton_iff {needle s : List α} {a : α} (hne : needle ≠ [])
    (hlast : needle.getLast? ≠ some a) : needle <+: s ++ [a] ↔ needle <+: s := by
  constructor
  · intro h
    rcases List.prefix_concat_iff.mp h with rfl | h
    · exact absurd List.getLast?_concat hlast
    · exact h
  · intro h
    exact h.trans (List.prefix_append s [a])

variable [DecidableEq α]

/-- The index of the first occurrence. -/
def find (needle s : List α) : Option ℕ := s.tails.findIdx? fun t => decide (needle <+: t)

theorem find_eq_some_iff {needle s : List α} {i : ℕ} :
    find needle s = some i ↔
      i ≤ s.length ∧ needle <+: s.drop i ∧ ∀ j < i, ¬needle <+: s.drop j := by
  rw [find, List.findIdx?_eq_some_iff_getElem]
  simp only [List.length_tails, List.getElem_tails, decide_eq_true_eq]
  constructor
  · rintro ⟨hi, hhere, hbefore⟩
    exact ⟨Nat.lt_succ_iff.mp hi, hhere, hbefore⟩
  · rintro ⟨hi, hhere, hbefore⟩
    exact ⟨Nat.lt_succ_iff.mpr hi, hhere, hbefore⟩

theorem find_isSome_iff {needle s : List α} : (find needle s).isSome ↔ needle <:+: s := by
  rw [find, List.findIdx?_isSome, List.any_eq_true]
  simp only [List.mem_tails, decide_eq_true_eq]
  constructor
  · rintro ⟨t, htail, hhere⟩
    exact hhere.isInfix.trans htail.isInfix
  · intro h
    obtain ⟨t, hhere, htail⟩ := List.infix_iff_prefix_suffix.mp h
    exact ⟨t, htail, hhere⟩

/-- The text is cut at its first occurrence. -/
theorem eq_append_of_find {needle s : List α} {i : ℕ} (h : find needle s = some i) :
    s = s.take i ++ needle ++ s.drop (i + needle.length) := by
  obtain ⟨-, ⟨rest, hrest⟩, -⟩ := find_eq_some_iff.mp h
  have hdrop : s.drop (i + needle.length) = rest := by
    rw [← List.drop_drop, ← hrest, List.drop_left]
  rw [hdrop, List.append_assoc, hrest, List.take_append_drop]

/-- The first occurrence stays where it is when such an element is added. -/
theorem find_append_singleton {needle s : List α} {a : α} (hne : needle ≠ [])
    (hlast : needle.getLast? ≠ some a) : find needle (s ++ [a]) = find needle s := by
  have hdrop : ∀ i ≤ s.length, needle <+: (s ++ [a]).drop i ↔ needle <+: s.drop i := by
    intro i hi
    rw [List.drop_append_of_le_length hi]
    exact prefix_append_singleton_iff hne hlast
  ext i
  rw [find_eq_some_iff, find_eq_some_iff]
  constructor
  · rintro ⟨hi, hhere, hbefore⟩
    have hle : i ≤ s.length := by
      by_contra hlt
      have hnil : (s ++ [a]).drop i = [] := List.drop_eq_nil_of_le (by simp; omega)
      rw [hnil] at hhere
      exact hne (List.prefix_nil.mp hhere)
    refine ⟨hle, (hdrop i hle).mp hhere, fun j hj => ?_⟩
    exact fun h => hbefore j hj ((hdrop j (by omega)).mpr h)
  · rintro ⟨hi, hhere, hbefore⟩
    refine ⟨by simp; omega, (hdrop i hi).mpr hhere, fun j hj => ?_⟩
    exact fun h => hbefore j hj ((hdrop j (by omega)).mp h)

end Find

/-! ### `LIKE` -/

/-- What one place of a pattern stands for. -/
inductive Wildcard
  | lit (c : Char)
  | one
  | any
  deriving DecidableEq, Repr

/-- The places of a pattern, when the escape character has just been read or not; an escape
character at the end of a pattern is refused. -/
def wildcardsAfter (escape : Char) : Bool → List Char → Option (List Wildcard)
  | false, [] => some []
  | true, [] => none
  | true, c :: s => (wildcardsAfter escape false s).map (.lit c :: ·)
  | false, c :: s =>
    if c = escape then wildcardsAfter escape true s
    else
      (wildcardsAfter escape false s).map
        ((if c = '%' then .any else if c = '_' then .one else .lit c) :: ·)

/-- The texts that the places stand for. -/
def Wildcard.match : List Wildcard → List Char → Bool
  | [], s => s.isEmpty
  | .lit _ :: _, [] => false
  | .lit c :: ws, d :: s => decide (c = d) && Wildcard.match ws s
  | .one :: _, [] => false
  | .one :: ws, _ :: s => Wildcard.match ws s
  | .any :: ws, s => s.tails.any (Wildcard.match ws)

/-- `s LIKE pattern ESCAPE escape`. -/
def like (escape : Char) (pattern s : List Char) : Option Bool :=
  (wildcardsAfter escape false pattern).map fun ws => Wildcard.match ws s

/-- A text with the characters escaped that mean something in a pattern. -/
def escaped (escape : Char) (s : List Char) : List Char :=
  s.flatMap fun c => if c = escape ∨ c = '%' ∨ c = '_' then [escape, c] else [c]

/-- The places of an escaped text are its characters. -/
theorem wildcardsAfter_escaped (escape : Char) (s rest : List Char) :
    wildcardsAfter escape false (escaped escape s ++ rest) =
      (wildcardsAfter escape false rest).map (s.map .lit ++ ·) := by
  induction s with
  | nil => simp [escaped]
  | cons c s ih =>
    have hcons : escaped escape (c :: s) ++ rest =
        (if c = escape ∨ c = '%' ∨ c = '_' then [escape, c] else [c]) ++
          (escaped escape s ++ rest) := by
      rw [escaped, List.flatMap_cons, List.append_assoc, ← escaped]
    rw [hcons]
    by_cases hc : c = escape ∨ c = '%' ∨ c = '_'
    · rw [if_pos hc, List.cons_append, wildcardsAfter, if_pos rfl, List.cons_append,
        List.nil_append, wildcardsAfter, ih, Option.map_map]
      rfl
    · obtain ⟨hescape, hany, hone⟩ : c ≠ escape ∧ c ≠ '%' ∧ c ≠ '_' := by
        simpa [not_or] using hc
      rw [if_neg hc, List.cons_append, List.nil_append, wildcardsAfter, if_neg hescape,
        if_neg hany, if_neg hone, ih, Option.map_map]
      rfl

/-- Characters and then anything: the texts that start with them. -/
theorem match_lits_any (needle s : List Char) :
    Wildcard.match (needle.map .lit ++ [.any]) s = decide (needle <+: s) := by
  induction needle generalizing s with
  | nil => simp [Wildcard.match]
  | cons c needle ih =>
    cases s with
    | nil => simp [Wildcard.match]
    | cons =>
      rw [List.map_cons, List.cons_append, Wildcard.match, ih]
      simp [List.cons_prefix_cons]

/-- The pattern of a search matches the texts that contain what is searched for, whatever stands
in it. -/
theorem like_contains {escape : Char} (h : escape ≠ '%') (needle s : List Char) :
    like escape ('%' :: escaped escape needle ++ ['%']) s = some (decide (needle <:+: s)) := by
  have hpercent : '%' ≠ escape := fun heq => h heq.symm
  have hlast : wildcardsAfter escape false ['%'] = some [.any] := by
    simp [wildcardsAfter, hpercent]
  have hplaces : wildcardsAfter escape false ('%' :: escaped escape needle ++ ['%']) =
      some (.any :: (needle.map .lit ++ [.any])) := by
    rw [List.cons_append, wildcardsAfter, if_neg hpercent, if_pos rfl,
      wildcardsAfter_escaped, hlast]
    rfl
  rw [like, hplaces, Option.map_some, Option.some_inj, Wildcard.match, Bool.eq_iff_iff,
    List.any_eq_true]
  simp only [List.mem_tails, match_lits_any, decide_eq_true_eq]
  constructor
  · rintro ⟨t, htail, hhere⟩
    exact hhere.isInfix.trans htail.isInfix
  · intro hinfix
    obtain ⟨t, hhere, htail⟩ := List.infix_iff_prefix_suffix.mp hinfix
    exact ⟨t, htail, hhere⟩

end TextSearch
